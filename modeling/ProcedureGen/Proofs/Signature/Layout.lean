import ProcedureGen.Proofs.Signature.Reading

/-!
# Signatures and layout

The parameters and the result type of a signature are cut out of the declaration as they are
written.  So its layout gets into the signature in two places: between the tokens of the parameters
and between those of the result type.

* `Signature.ofTokens`: the signature of some tokens;
* `Signature.returnTokens_trigger`: the result type of a trigger is one token;
* `Signature.read_layout`: what two declarations that differ in their layout have in common;
* `Signature.read_layout_colon`: a blank behind a colon is not without effect.
-/

namespace ProcedureGen

open Script

namespace Script

/-! ## Words at the front of a text -/

theorem Punctuator.spelling_head? (p : Punctuator) {c : Char} (h : p.spelling.head? = some c) :
    isIdentifierStart c = false := by
  have hnone : (p.spelling.head?.any isIdentifierStart) = false := by cases p <;> decide
  simpa [h] using hnone

theorem Literal.readRegex?_head {x : Text} {l : Literal} (h : readRegex? x = some l) :
    l.raw.head? = some '/' := by
  rcases readRegex?_eq_some_iff.1 h with ⟨-, -, body, flags, hraw, -⟩
  rw [hraw, List.head?_cons]

/-- A token is read off the text, unless it is a regular expression, the rest of a template or the
part of a mark. -/
theorem Goal.scan_inv {goal : Goal} {x y : Text} {t : Token} (h : goal.scan x = some (t, y)) :
    Token.read? (t.raw ++ y) = some (t.kind, ⟨t.raw, y⟩) ∨ t.raw.head? = some '/' ∨
      t.raw.head? = some '\x7d' ∨ ∃ p : Punctuator, t.raw = p.spelling ∧ t.kind = .punctuator p := by
  cases goal with
  | plain =>
      rcases scan_plain.1 h with ⟨hscan, hvalid, -⟩
      exact .inl (Token.scan_valid hscan hvalid).2
  | regex =>
      rcases Option.map_eq_some_iff.1 h with ⟨l, hl, heq⟩
      rcases Prod.mk.inj heq with ⟨rfl, -⟩
      exact .inr (.inl (Literal.readRegex?_head hl))
  | templateRest =>
      simp only [scan, Token.scanTemplateRest] at h
      split at h
      · rcases Option.map_eq_some_iff.1 h with ⟨⟨k, l⟩, hl, heq⟩
        rcases Prod.mk.inj heq with ⟨rfl, -⟩
        rcases Option.map_eq_some_iff.1 hl with ⟨m, -, heq'⟩
        rw [← (Prod.mk.inj heq').2]
        exact .inr (.inr (.inl rfl))
      · cases h
  | part p =>
      simp only [scan] at h
      split at h
      · split at h
        · rcases Prod.mk.inj (Option.some.inj h) with ⟨rfl, -⟩
          exact .inr (.inr (.inr ⟨p, rfl, rfl⟩))
        · cases h
      · cases h

/-- What begins like a word is a whole word, whatever it is scanned for. -/
theorem Goal.scan_word {goal : Goal} {x y : Text} {t : Token} {c : Char}
    (h : goal.scan x = some (t, y)) (hhead : t.raw.head? = some c)
    (hc : isIdentifierStart c = true) : Quiet y := by
  have hother : ∀ d : Char, isIdentifierStart d = false → c ≠ d := by
    rintro d hd rfl
    exact absurd (hc.symm.trans hd) (by decide)
  rcases scan_inv h with hread | hslash | hbrace | ⟨p, hraw, -⟩
  · rcases List.head?_eq_some_iff.1 hhead with ⟨raw, hraw⟩
    have hplain : Token.OpensPlain c (raw ++ y) := by
      refine ⟨hother '#' (by decide), hother '\x60' (by decide), ?_⟩
      rintro ⟨rest, hrest⟩
      exact hother '<' (by decide) (List.cons.inj hrest).1.symm
    rw [hraw, List.cons_append, Token.read?_plain hplain,
      if_pos (by simp [Token.opensWord, hc])] at hread
    rcases Option.map_eq_some_iff.1 hread with ⟨w, hw, heq⟩
    obtain rfl : w.rest = y := congrArg (fun r => r.2.rest) heq
    exact (Word.read?_again hw).2.1
  · exact absurd (Option.some.inj (hhead.symm.trans hslash)) (hother '/' (by decide))
  · exact absurd (Option.some.inj (hhead.symm.trans hbrace)) (hother '\x7d' (by decide))
  · rw [hraw] at hhead
    exact absurd rfl (hother c (Punctuator.spelling_head? p hhead))

/-! ## Spacing -/

/-- What stands between tokens. -/
def spacing (ts : List Token) : List Text := ts.tail.map Token.gap

theorem sourceOf_congr {ts us : List Token} (hsame : ts.map Token.bare = us.map Token.bare)
    (hgaps : ts.map Token.gap = us.map Token.gap) : Tree.sourceOf ts = Tree.sourceOf us := by
  induction ts generalizing us with
  | nil =>
      obtain rfl := List.map_eq_nil_iff.1 hsame.symm
      rfl
  | cons t ts ih =>
      cases us with
      | nil => cases hsame
      | cons u us =>
          rcases List.cons.inj hsame with ⟨htoken, hmore⟩
          rcases List.cons.inj hgaps with ⟨hgap, hmore'⟩
          have hraw : t.raw = u.raw := (Token.mk.inj htoken).2.2.1
          rw [sourceOf_cons, sourceOf_cons, hgap, hraw, ih hmore hmore']

/-- Tokens with the same spacing make the same text. -/
theorem textOf_congr {ts us : List Token} (hsame : ts.map Token.bare = us.map Token.bare)
    (hspacing : spacing ts = spacing us) : Tree.textOf ts = Tree.textOf us := by
  cases ts with
  | nil =>
      obtain rfl := List.map_eq_nil_iff.1 hsame.symm
      rfl
  | cons t ts =>
      cases us with
      | nil => cases hsame
      | cons u us =>
          rcases List.cons.inj hsame with ⟨htoken, hmore⟩
          have hraw : t.raw = u.raw := (Token.mk.inj htoken).2.2.1
          rw [Tree.textOf, Tree.textOf, hraw, sourceOf_congr hmore hspacing]

/-! ## Functions without layout -/

namespace Tree

variable {f g item : Tree}

/-- The tokens of the parameters of a function. -/
def parameterTokens (f : Tree) : List Token :=
  match (f.child? .parameters).bind (child? .parameterList) with
  | some list => list.tokens
  | none => []

/-- The tokens of its result type. -/
def returnTokens? (f : Tree) : Option (List Token) :=
  (f.child? .returnType).map fun t => t.withoutLeadingBar.tokens

theorem withoutLeadingBar_bare (t : Tree) : t.bare.withoutLeadingBar = t.withoutLeadingBar.bare := by
  fun_induction withoutLeadingBar t with
  | case1 a one ih => exact ih
  | case2 t hother =>
      unfold withoutLeadingBar
      split
      next a one heq =>
        exfalso
        cases t with
        | node k u =>
            cases u with
            | cat x y =>
                cases y with
                | cat v w =>
                    cases w with
                    | empty =>
                        simp only [bare_node, node.injEq] at heq
                        exact hother x v (by rw [heq.1])
                    | _ => simp at heq
                | _ => simp at heq
            | _ => simp at heq
        | _ => cases heq
      · rfl

/-- A type without its leading bar is a part of the type. -/
theorem part_withoutLeadingBar (t : Tree) : Part t.withoutLeadingBar t := by
  fun_induction withoutLeadingBar t with
  | case1 a one ih => exact ((ih.cat_left .empty).cat_right a).node .barredUnion
  | case2 t _ => exact .refl t

theorem parameterTokens_bare (f : Tree) :
    f.bare.parameterTokens = f.parameterTokens.map Token.bare := by
  simp only [parameterTokens, child?_bare]
  cases f.child? .parameters with
  | none => rfl
  | some ps =>
      simp only [Option.map_some, Option.bind_some, child?_bare]
      cases ps.child? .parameterList with
      | none => rfl
      | some list => exact tokens_bare list

theorem returnTokens?_bare (f : Tree) :
    f.bare.returnTokens? = f.returnTokens?.map (List.map Token.bare) := by
  simp only [returnTokens?, child?_bare]
  cases f.child? .returnType with
  | none => rfl
  | some t => simp [withoutLeadingBar_bare, tokens_bare]

end Tree

end Script

namespace Signature

variable {d : Dialect} {source : Text} {m m' : Module} {f : Tree} {rs : List Token}

/-- The signature of a function that is declared with these tokens. -/
def ofTokens (name : Text) (params returns : List Token) : Signature :=
  let returnType := Tree.textOf returns
  let params := if returnType = triggerType then [] else (Tree.textOf params).filter (· != ':')
  ⟨name, params, returnType⟩

theorem ofDeclaration?_eq (f : Tree) :
    ofDeclaration? f = f.returnTokens?.map (ofTokens f.functionName f.parameterTokens) := by
  have hparams : f.parameterText = Tree.textOf f.parameterTokens := by
    rw [Tree.parameterText, Tree.parameterTokens]
    cases (f.child? .parameters).bind (Tree.child? .parameterList) <;> rfl
  rw [ofDeclaration?, Tree.returnTokens?]
  cases f.child? .returnType with
  | none => rfl
  | some t =>
      rw [hparams]
      rfl

/-- The items of a module, without its layout. -/
theorem items_bare (h : m.tree.bare = m'.tree.bare) :
    m.items.map Tree.bare = m'.items.map Tree.bare := by
  unfold Module.items
  rw [Tree.filter_changed fun t => by cases t <;> rfl,
    Tree.filter_changed fun t => by cases t <;> rfl, ← Tree.children_bare, ← Tree.children_bare, h]

theorem bodiless?_bare (item : Tree) : bodiless? item.bare = (bodiless? item).map Tree.bare := by
  rw [bodiless?, bodiless?, Tree.function?_bare]
  cases item.function? with
  | none => rfl
  | some f =>
      simp only [Option.map_some, Tree.child?_bare, Option.isNone_map]
      split <;> rfl

/-- The first function without a body is found in the same place. -/
theorem declaration?_bare (h : m.tree.bare = m'.tree.bare) :
    (declaration? m).map Tree.bare = (declaration? m').map Tree.bare := by
  have hfind : ∀ m : Module,
      (declaration? m).map Tree.bare = (m.items.map Tree.bare).findSome? bodiless? :=
    fun m => (Tree.findSome?_changed bodiless?_bare m.items).symm
  rw [hfind, hfind, items_bare h]

/-- The tokens of the result type stand together among those of the module. -/
theorem returnTokens_leads (hm : Module.parse? d source = some m) (hf : declaration? m = some f)
    (hrs : f.returnTokens? = some rs) : ∃ goals x y, Leads goals x rs y := by
  rcases Option.map_eq_some_iff.1 hrs with ⟨t, ht, rfl⟩
  have htype : Tree.Part t.withoutLeadingBar f :=
    ((Tree.part_withoutLeadingBar t).node .returnType).trans (Tree.part_of_child? ht)
  rcases leads_of_declaration? hm hf with ⟨goals, x, y, hleads⟩
  exact htype.leads hleads

/-- The result type of a trigger is one token, however it is laid out. -/
theorem returnTokens_trigger (hm : Module.parse? d source = some m)
    (hf : declaration? m = some f) (hrs : f.returnTokens? = some rs)
    (h : Tree.textOf rs = triggerType) : ∃ t, rs = [t] ∧ t.raw = triggerType := by
  rcases returnTokens_leads hm hf hrs with ⟨goals, x, z, hleads⟩
  cases rs with
  | nil => cases h
  | cons t ts =>
      rcases hleads.cons_inv with ⟨goal, more, y, hscan, hmore⟩
      have hne := (Goal.scan_settled hscan).firm.ne_nil
      have hletter : ∀ c ∈ triggerType, isIdentifierStart c = true := by
        have hall : triggerType.all isIdentifierStart = true := by decide
        exact List.all_eq_true.1 hall
      rw [Tree.textOf] at h
      rcases List.exists_cons_of_ne_nil hne with ⟨c, raw, hraw⟩
      have hstart : isIdentifierStart c = true := hletter c (by simp [← h, hraw])
      have hquiet := Goal.scan_word hscan (by simp [hraw]) hstart
      -- What follows the word is no letter, so nothing of the type follows it.
      cases ts with
      | nil =>
          refine ⟨t, rfl, ?_⟩
          simpa [Tree.sourceOf] using h
      | cons u us =>
          exfalso
          rcases hmore.cons_inv with ⟨_, _, _, hscan', -⟩
          have hu := (Goal.scan_settled hscan').firm.ne_nil
          have hsource : Tree.sourceOf (u :: us) ≠ [] := by simp [sourceOf_cons, hu]
          rcases List.exists_cons_of_ne_nil hsource with ⟨d, rest, hd⟩
          rw [hmore.sourceOf_append, hd] at hquiet
          have hpart := (hquiet d rfl).1
          have hstart' : isIdentifierStart d = true := hletter d (by simp [← h, hd])
          simp [isIdentifierPart, hstart'] at hpart

theorem ofTokens_trigger {name : Text} {ps ps' rs rs' : List Token}
    (h : Tree.textOf rs = triggerType) (h' : Tree.textOf rs' = triggerType) :
    ofTokens name ps rs = ofTokens name ps' rs' := by
  simp only [ofTokens, h, h', if_true]

/-- A type that is one word is written alike in every layout. -/
theorem trigger_of_bare {rs rs' : List Token} (hsame : rs.map Token.bare = rs'.map Token.bare)
    (h : ∃ t, rs = [t] ∧ t.raw = triggerType) : Tree.textOf rs' = triggerType := by
  rcases h with ⟨t, rfl, hraw⟩
  cases rs' with
  | nil => cases hsame
  | cons u us =>
      rcases List.cons.inj hsame with ⟨htoken, hmore⟩
      obtain rfl := List.map_eq_nil_iff.1 hmore.symm
      have huraw : t.raw = u.raw := (Token.mk.inj htoken).2.2.1
      rw [Tree.textOf, ← huraw, hraw]
      exact List.append_nil _

section Layout

variable {path source' : Text}

/-- Two declarations that differ in their layout alone fail in the same way, or they give signatures
with the same name whose parameters and result types are made of the same tokens.  The signatures
are the same if the function is a trigger, and if the layout inside its parameters and its result
type is the same. -/
theorem read_layout (h : Module.parse? (.ofPath path) source = some m)
    (h' : Module.parse? (.ofPath path) source' = some m') (hsame : m.tree.bare = m'.tree.bare) :
    (∃ e, read path source = .error e ∧ read path source' = .error e) ∨
    ∃ f f' rs rs',
      (declaration? m = some f ∧ f.returnTokens? = some rs) ∧
      (declaration? m' = some f' ∧ f'.returnTokens? = some rs') ∧
      read path source = .ok (ofTokens f.functionName f.parameterTokens rs) ∧
      read path source' = .ok (ofTokens f.functionName f'.parameterTokens rs') ∧
      f.parameterTokens.map Token.bare = f'.parameterTokens.map Token.bare ∧
      rs.map Token.bare = rs'.map Token.bare ∧
      (Tree.textOf rs = triggerType ∨ Tree.textOf rs' = triggerType →
        read path source = read path source') ∧
      (spacing f.parameterTokens = spacing f'.parameterTokens → spacing rs = spacing rs' →
        read path source = read path source') := by
  have hfound := declaration?_bare hsame
  unfold read
  simp only [h, h']
  cases hf : declaration? m with
  | none =>
      rw [hf] at hfound
      rw [Option.map_eq_none_iff.1 hfound.symm]
      exact .inl ⟨_, rfl, rfl⟩
  | some f =>
      rw [hf] at hfound
      rcases Option.map_eq_some_iff.1 hfound.symm with ⟨f', hf', hbare⟩
      have hname : f'.functionName = f.functionName := by
        rw [← Tree.functionName_bare, hbare, Tree.functionName_bare]
      have hparams : f.parameterTokens.map Token.bare = f'.parameterTokens.map Token.bare := by
        rw [← Tree.parameterTokens_bare, ← hbare, Tree.parameterTokens_bare]
      have hreturns : f.returnTokens?.map (List.map Token.bare) =
          f'.returnTokens?.map (List.map Token.bare) := by
        rw [← Tree.returnTokens?_bare, ← hbare, Tree.returnTokens?_bare]
      simp only [hf', ofDeclaration?_eq, hname]
      cases hrs : f.returnTokens? with
      | none =>
          rw [hrs] at hreturns
          rw [Option.map_eq_none_iff.1 hreturns.symm]
          exact .inl ⟨_, rfl, rfl⟩
      | some rs =>
          rw [hrs] at hreturns
          rcases Option.map_eq_some_iff.1 hreturns.symm with ⟨rs', hrs', htokens⟩
          simp only [hrs', Option.map_some]
          refine .inr ⟨f, f', rs, rs', ⟨rfl, hrs⟩, ⟨rfl, hrs'⟩, rfl, rfl, hparams, htokens.symm,
            fun htrigger => ?_, fun hspaces hspaces' => ?_⟩
          · have hboth : Tree.textOf rs = triggerType ∧ Tree.textOf rs' = triggerType := by
              rcases htrigger with htrigger | htrigger
              · exact ⟨htrigger,
                  trigger_of_bare htokens.symm (returnTokens_trigger h hf hrs htrigger)⟩
              · exact ⟨trigger_of_bare htokens (returnTokens_trigger h' hf' hrs' htrigger),
                  htrigger⟩
            rw [ofTokens_trigger hboth.1 hboth.2]
          · rw [ofTokens, ofTokens, textOf_congr hparams hspaces,
              textOf_congr htokens.symm hspaces']

/-- A declaration with comments and line ends around its parameters and its result type. -/
def declarationSpread : Text :=
  "// A comment.\nexport declare\n  function f ( /* b */\n  a: number[] ) : // c\n  Array<text> ;"

/-- The same declaration on one line. -/
def declarationPlain : Text := "export declare function f(a: number[]): Array<text>;"

/-- A declaration without a blank behind a colon. -/
def declarationTight : Text := "export declare function f(a:number): number;"

/-- The same declaration with one. -/
def declarationLoose : Text := "export declare function f(a: number): number;"

/-- What is read off these modules, which are two and two the same but for their layout. -/
theorem read_declarations :
    ((Module.parse? (.ofPath "f.d.ts".toList) declarationSpread).map (·.tree.bare) =
        (Module.parse? (.ofPath "f.d.ts".toList) declarationPlain).map (·.tree.bare) ∧
      (∀ source ∈ [declarationSpread, declarationPlain],
        ∀ m ∈ Module.parse? (.ofPath "f.d.ts".toList) source, ∀ f ∈ declaration? m,
          spacing f.parameterTokens = [[], [' '], [], []] ∧
            f.returnTokens?.map spacing = some [[], [], []]) ∧
      ((Module.parse? (.ofPath "f.d.ts".toList) declarationPlain).bind
        declaration?).isSome = true) ∧
    ((Module.parse? (.ofPath "f.d.ts".toList) declarationTight).map (·.tree.bare) =
        (Module.parse? (.ofPath "f.d.ts".toList) declarationLoose).map (·.tree.bare) ∧
      (Module.parse? (.ofPath "f.d.ts".toList) declarationLoose).isSome = true ∧
      read "f.d.ts" declarationTight = .ok ⟨"f", "anumber", "number"⟩ ∧
      read "f.d.ts" declarationLoose = .ok ⟨"f", "a number", "number"⟩) := by
  decide +kernel

theorem read_layout_declarationSpread :
    ∃ m m', Module.parse? (.ofPath "f.d.ts".toList) declarationSpread = some m ∧
      Module.parse? (.ofPath "f.d.ts".toList) declarationPlain = some m' ∧
      m.tree.bare = m'.tree.bare ∧
      read "f.d.ts" declarationSpread = read "f.d.ts" declarationPlain := by
  obtain ⟨hbare, hspaced, hfound⟩ := read_declarations.1
  rcases Option.isSome_iff_exists.1 hfound with ⟨g, hg⟩
  rcases Option.bind_eq_some_iff.1 hg with ⟨m', hm', hg⟩
  rcases Option.map_eq_some_iff.1 (hbare.trans (congrArg _ hm')) with ⟨m, hm, hsame⟩
  have hspread := hspaced declarationSpread (by simp) m hm
  have hplain := hspaced declarationPlain (by simp) m' hm'
  refine ⟨m, m', hm, hm', hsame, ?_⟩
  rcases read_layout hm hm' hsame with ⟨e, hfail, hfail'⟩ |
    ⟨f, f', rs, rs', ⟨hf, hrs⟩, ⟨hf', hrs'⟩, -, -, -, -, -, hspacing⟩
  · exact hfail.trans hfail'.symm
  · have hsp := hspread f hf
    have hsp' := hplain f' hf'
    rw [hrs] at hsp
    rw [hrs'] at hsp'
    exact hspacing (hsp.1.trans hsp'.1.symm)
      ((Option.some.inj hsp.2).trans (Option.some.inj hsp'.2).symm)

/-- The layout of the parameters gets into the signature: a parameter whose type stands right behind
its colon has no name of its own any more. -/
theorem read_layout_colon :
    ∃ m m', Module.parse? (.ofPath "f.d.ts".toList) declarationTight = some m ∧
      Module.parse? (.ofPath "f.d.ts".toList) declarationLoose = some m' ∧
      m.tree.bare = m'.tree.bare ∧
      read "f.d.ts" declarationTight = .ok ⟨"f", "anumber", "number"⟩ ∧
      read "f.d.ts" declarationLoose = .ok ⟨"f", "a number", "number"⟩ := by
  obtain ⟨hbare, hfound, hread⟩ := read_declarations.2
  rcases Option.isSome_iff_exists.1 hfound with ⟨m', hm'⟩
  rcases Option.map_eq_some_iff.1 (hbare.trans (congrArg _ hm')) with ⟨m, hm, hsame⟩
  exact ⟨m, m', hm, hm', hsame, hread⟩

end Layout

end Signature

end ProcedureGen
