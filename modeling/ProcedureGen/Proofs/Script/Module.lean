import ProcedureGen.Proofs.Script.Tree

/-!
# Modules and their texts

What the reader of modules gives, in terms of the text that it is given.

* `Dialect.ofPath_declarations`, `Dialect.ofPath_script`: the dialects that are asked for;
* `Module.code`: the text of a module behind what is left out at its start;
* `Module.parse?_covers`, `Module.parse?_reads`: how a module is read;
* `Module.parse?_scan`: the leaves of a module are the tokens of its code;
* `Module.parse?_nested`: its bodies end where their first braces close.
-/

namespace ProcedureGen
namespace Script

/-! ## Dialects of files -/

theorem Dialect.ofPath_declarations {path : Text} (h : ".d.ts".toList <:+ path) :
    Dialect.ofPath path = .ambient := by
  rw [ofPath, if_pos (List.isSuffixOf_iff_suffix.2 h)]

/-- A name with the ending of a compiled script asks for no types. -/
theorem Dialect.ofPath_script {path : Text} (h : ".js".toList <:+ path) :
    Dialect.ofPath path = .plain := by
  have hother : ∀ ending : Text, ".ts".toList <:+ ending → ¬ ending <:+ path := by
    intro ending hending hpath
    have hsame := List.suffix_of_suffix_length_le h (hending.trans hpath) (by decide)
    exact absurd hsame (by decide)
  have hambient := hother ".d.ts".toList (by decide)
  have htyped := hother ".ts".toList List.suffix_rfl
  rw [← List.isSuffixOf_iff_suffix, Bool.not_eq_true] at hambient htyped
  rw [Dialect.ofPath, hambient, htyped]
  rfl

/-! ## What a module is read from -/

theorem withoutMark_eq (t : Text) :
    ∃ mark, t = mark ++ withoutMark t ∧ ∀ c ∈ mark, c.toNat = 0xFEFF := by
  unfold withoutMark
  split
  next c rest =>
    split
    next hc => exact ⟨[c], rfl, by simpa using hc⟩
    · exact ⟨[], rfl, by simp⟩
  · exact ⟨[], rfl, by simp⟩

theorem splitShebang_eq (t : Text) : t = (splitShebang t).1 ++ (splitShebang t).2 := by
  unfold splitShebang
  split
  · exact (span_eq rfl).1
  · rfl

namespace Module

variable {d : Dialect} {text : Text} {m : Module}

/-- The text of a module behind a byte order mark and the line for the system's loader. -/
def code (m : Module) : Text := (splitShebang m.source).2

/-- A module is read from its code: items as long as there are any, and then the end. -/
theorem parse?_reads (h : parse? d text = some m) :
    m.source = withoutMark text ∧ m.shebang = (splitShebang m.source).1 ∧
      m.tree.isSound .top = true ∧
      ∃ items c final c', m.tree = .cat items final ∧
        (Phrase.many (.rule .moduleItem)).read d (depthOf m.code)
          ((grammar d).read d (depthOf m.code)) (.ofText m.code) = some (items, c) ∧
        Terminal.accept d .endOfText c = some (final, c') := by
  unfold parse? at h
  dsimp only at h
  split at h
  next tree c hread =>
    split at h
    next hsound =>
      obtain rfl := Option.some.inj h
      rcases Phrase.read_seq_iff.1 hread with ⟨items, c₁, final, hitems, hfinal, rfl⟩
      exact ⟨rfl, rfl, hsound, items, c₁, final, c, rfl, hitems, hfinal⟩
    next => cases h
  next => cases h

/-- The source is the code behind what is left out of it. -/
theorem exists_source_eq (h : parse? d text = some m) :
    ∃ mark, text = mark ++ (m.shebang ++ m.code) ∧ ∀ c ∈ mark, c.toNat = 0xFEFF := by
  rcases parse?_reads h with ⟨hsource, hshebang, -⟩
  rw [hshebang, code, ← splitShebang_eq, hsource]
  exact withoutMark_eq text

/-- The items of a module, in front of the end of its text, cover that text. -/
theorem parse?_covers (h : parse? d text = some m) :
    ∃ before code items final after,
      text = before ++ code ∧ m.tree = .cat items (.leaf final) ∧ Covers code items after := by
  rcases parse?_reads h with ⟨-, -, -, items, c, final, c', htree, hitems, hfinal⟩
  rcases exists_source_eq h with ⟨mark, hsource, -⟩
  rcases Terminal.accept_endOfText hfinal with ⟨token, rfl⟩
  have hrules := Grammar.read_faithful (grammar_isRegular d) d (depthOf m.code)
  rcases Phrase.read_faithful hrules rfl _ _ _ hitems with ⟨after, -, hcovers⟩
  exact ⟨mark ++ m.shebang, m.code, items, token, after, by simp [hsource], htree, hcovers⟩

/-- The bodies in a module are nested. -/
theorem parse?_nested (h : parse? d text = some m) : m.tree.Nested := by
  rcases parse?_reads h with ⟨-, -, -, items, c, final, c', htree, hitems, hfinal⟩
  have hdepth := fun r => grammar_depthBehind d r
  have hrules := Grammar.read_nested hdepth (grammar_isNesting d) d (depthOf m.code)
  have hbalanced := Grammar.read_depth hdepth d (depthOf m.code)
  rw [htree]
  refine ⟨Phrase.read_nested hbalanced hrules rfl _ _ _ hitems, ?_⟩
  rcases Terminal.accept_endOfText hfinal with ⟨token, rfl⟩
  trivial

/-- The items of a module stand in front of the end of its text. -/
theorem mem_children_of_mem_items {items item : Tree} {final : Token}
    (htree : m.tree = .cat items (.leaf final)) (hitem : item ∈ m.items) :
    item ∈ items.children := by
  rcases List.mem_filter.1 hitem with ⟨hchild, hnode⟩
  rw [htree, Tree.children_cat, Tree.children_leaf, List.mem_append, List.mem_singleton] at hchild
  rcases hchild with hchild | rfl
  · exact hchild
  · cases hnode

/-- A function in an item of a module is a part of the items. -/
theorem exists_part_of_function? {item f : Tree} (h : parse? d text = some m)
    (hitem : item ∈ m.items) (hf : item.function? = some f) :
    ∃ before code items after,
      text = before ++ code ∧ Covers code items after ∧ items.Nested ∧ Tree.Part f items := by
  rcases parse?_covers h with ⟨before, code, items, final, after, htext, htree, hcovers⟩
  have hchild := mem_children_of_mem_items htree hitem
  have hnested : items.Nested := (htree ▸ parse?_nested h).1
  exact ⟨before, code, items, after, htext, hcovers, hnested,
    (Tree.part_of_function? hf).trans (Tree.part_of_mem_children hchild)⟩

end Module

/-! ## The tokens of a module -/

/-- Tokens in front of the end of a text are all its tokens. -/
theorem Leads.scanAs_end {goals : List Goal} {x y : Text} {ts : List Token}
    (h : Leads goals x ts y) (hend : (Token.scan y).1.kind = .endOfText) :
    Script.scanAs goals x = some (ts ++ [(Token.scan y).1]) := by
  induction h with
  | nil x => simp [Script.scanAs, hend]
  | cons hscan _ ih => exact scanAs_cons.2 ⟨_, _, _, hscan, ih hend, rfl⟩

/-- A mark among the tokens of a text is written as it is spelled. -/
theorem mark_raw_of_scanAs {goals : List Goal} {x : Text} {ts : List Token} {t : Token}
    {p : Punctuator} (h : scanAs goals x = some ts) (ht : t ∈ ts)
    (hkind : t.kind = .punctuator p) : t.raw = p.spelling := by
  induction goals generalizing x ts with
  | nil =>
      rcases scanAs_nil.1 h with ⟨-, rfl⟩
      rw [List.mem_singleton.1 ht] at hkind
      cases hkind
  | cons goal goals ih =>
      rcases scanAs_cons.1 h with ⟨u, rest, more, hscan, hmore, rfl⟩
      rcases List.mem_cons.1 ht with rfl | ht
      · exact Goal.scan_mark_raw hscan hkind
      · exact ih hmore ht

namespace Module

variable {d : Dialect} {text : Text} {m : Module}

/-- The leaves of what is read off a text up to its end are the tokens of that text. -/
theorem read_scan {depth : Nat} {code : Text} {tree : Tree} {c' : Cursor}
    (h : phrase.read d depth ((grammar d).read d depth) (.ofText code) = some (tree, c')) :
    ∃ goals, scanAs goals code = some tree.tokens := by
  rcases Phrase.read_seq_iff.1 h with ⟨items, c, final, hitems, hfinal, rfl⟩
  have hrules := Grammar.read_faithful (grammar_isRegular d) d depth
  rcases Phrase.read_faithful hrules rfl _ _ _ hitems with ⟨y, rfl, hcovers⟩
  rcases hcovers with ⟨goals, hleads⟩
  replace hfinal : Terminal.accept d .endOfText (.ofText y) = some (final, c') := hfinal
  simp only [Terminal.accept] at hfinal
  split at hfinal
  next hkind =>
    have hend : (Token.scan y).1.kind = .endOfText := by
      have hkind' : Terminal.matchesKind d .endOfText (Token.scan y).1.kind = true := hkind
      cases hk : (Token.scan y).1.kind <;> simp_all [Terminal.matchesKind]
    obtain rfl := (Prod.mk.inj (Option.some.inj hfinal)).1
    refine ⟨goals, ?_⟩
    rw [Tree.tokens_cat]
    exact hleads.scanAs_end hend
  · cases hfinal

/-- The leaves of a module are the tokens of its code. -/
theorem parse?_scan (h : parse? d text = some m) :
    ∃ goals, scanAs goals m.code = some m.tree.tokens := by
  rcases parse?_reads h with ⟨-, -, -, items, c, final, c', htree, hitems, hfinal⟩
  rw [htree]
  exact read_scan (Phrase.read_seq_iff.2 ⟨items, c, final, hitems, hfinal, rfl⟩)

end Module

end Script
end ProcedureGen
