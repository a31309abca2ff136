import ProcedureGen.Proofs.Script.Tree
import ProcedureGen.Script.EarlyError

/-!
# Early errors and spelling

Whether a tree has an early error depends on its nodes, on what its tokens are, and on what stands
between the quotes of its strings, as far as that is on one line.

* `Tree.KeepsQuoted`: a change of tokens that leaves strings on one line alone;
* `Tree.isSimpleTarget_map`, `Tree.isTarget_map` and the like: what the single conditions see;
* `Context.permits_map`, `Tree.isSound_map`: a tree is as sound with other tokens as before;
* `Token.essence`, `Tree.isSound_of_essence`: what counts of the tokens.
-/

namespace ProcedureGen
namespace Script

/-- What stands between the quotes of a string. -/
def Token.quoted (t : Token) : Text := (t.raw.drop 1).dropLast

namespace Tree

variable {f : Token → Token}

/-! ## The shape of a changed tree -/

theorem map_eq_empty {t : Tree} : t.map f = empty ↔ t = empty := by
  cases t <;> simp

theorem map_eq_leaf {t : Tree} {token : Token} :
    t.map f = leaf token ↔ ∃ token', t = leaf token' ∧ f token' = token := by
  cases t <;> simp

theorem map_eq_cat {t a b : Tree} :
    t.map f = cat a b ↔ ∃ a' b', t = cat a' b' ∧ a'.map f = a ∧ b'.map f = b := by
  cases t <;> simp

theorem map_eq_node {t a : Tree} {k : Node} :
    t.map f = node k a ↔ ∃ a', t = node k a' ∧ a'.map f = a := by
  cases t <;> simp

/-! ## Conditions on nodes -/

theorem endsInMember_map (steps : List Tree) :
    endsInMember (steps.map (map f)) = endsInMember steps := by
  simp only [endsInMember, List.getLast?_map, Option.any_map, Function.comp_def, isNode_map,
    List.any_map]

theorem restIsLast_map (ts : List Tree) : restIsLast (ts.map (map f)) = restIsLast ts := by
  fun_induction restIsLast ts with
  | case1 a rest => simp [restIsLast]
  | case2 t rest hspread ih =>
      rw [List.map_cons, restIsLast, ih]
      intro a ha
      rcases map_eq_node.1 ha with ⟨b, rfl, -⟩
      exact hspread b rfl
  | case3 => rfl

theorem labelsLoop_map (t : Tree) : (t.map f).labelsLoop = t.labelsLoop := by
  fun_induction labelsLoop t with
  | case1 a => rfl
  | case2 a b body ih => simpa [labelsLoop] using ih
  | case3 t hloop hlabelled =>
      rw [labelsLoop]
      -- A changed tree has one of the other shapes only if the tree itself has it.
      all_goals simp only [map_eq_node, map_eq_cat]
      all_goals aesop

theorem withoutParens_map (t : Tree) : (t.map f).withoutParens = t.withoutParens.map f := by
  fun_induction withoutParens t with
  | case1 a e b ih => simpa [withoutParens] using ih
  | case2 t hparen =>
      rw [withoutParens]
      -- There are no parentheses around the changed tree either.
      simp only [map_eq_node, map_eq_cat]
      aesop

theorem hasFancyParameters_map (t : Tree) :
    (t.map f).hasFancyParameters = t.hasFancyParameters := by
  simp only [hasFancyParameters, child?_map]
  cases t.child? .parameters with
  | none => rfl
  | some ps =>
      simp only [Option.map_some, child?_map]
      cases ps.child? .parameterList with
      | none => rfl
      | some list =>
          simp only [Option.map_some, children_map, List.any_map, Function.comp_def, isNode_map]

/-! ## Conditions on tokens -/

section Kinds

variable (hf : ∀ token, (f token).kind = token.kind)
include hf

theorem word?_map (token : Token) : (f token).word? = token.word? := by
  simp only [Token.word?, hf]

theorem isMark_map (p : Punctuator) (t : Tree) : (t.map f).isMark p = t.isMark p := by
  cases t <;> simp [isMark, hf]

theorem isName_map (t : Tree) : (t.map f).isName = t.isName := by
  cases t <;> simp [isName, hf]

theorem labelName?_map (t : Tree) : (t.map f).labelName? = t.labelName? := by
  simp only [labelName?, child?_map]
  cases t.child? .label with
  | none => rfl
  | some label => cases label <;> simp [word?_map hf]

theorem isSimpleTarget_map (t : Tree) : (t.map f).isSimpleTarget = t.isSimpleTarget := by
  fun_induction isSimpleTarget t with
  | case1 token => simp [isSimpleTarget, hf]
  | case2 a steps => simp [isSimpleTarget, children_map, endsInMember_map]
  | case3 a => rfl
  | case4 a e b ih => simpa [isSimpleTarget] using ih
  | case5 t =>
      -- What is no target has none of the four shapes, and a change adds none.
      rw [isSimpleTarget]
      all_goals simp only [map_eq_node, map_eq_leaf, map_eq_cat, map_eq_empty]
      all_goals aesop

theorem isTarget_map (t : Tree) : (t.map f).isTarget = t.isTarget := by
  fun_induction isTarget t with
  | case1 => rfl
  | case2 token => rfl
  | case3 a b iha ihb => simp [isTarget, iha, ihb]
  | case4 a ih => simp [isTarget, ih, children_map, restIsLast_map]
  | case5 a ih => simp [isTarget, ih, children_map, restIsLast_map]
  | case6 a b value ih => simpa [isTarget] using ih
  | case7 target a ih => simpa [isTarget] using ih
  | case8 a isPlain b => rfl
  | case9 a target hplain ih =>
      rw [map_node, map_cat, isTarget, ih]
      intro isPlain b hb
      rcases map_eq_node.1 hb with ⟨c, rfl, -⟩
      exact hplain isPlain c rfl
  | case10 a => simp [isTarget, isName_map hf]
  | case11 a => rfl
  | case12 t =>
      -- No pattern: the tree is a target only if it is a simple one.
      rw [isTarget, isSimpleTarget_map hf t]
      all_goals simp only [map_eq_node, map_eq_leaf, map_eq_cat, map_eq_empty]
      all_goals aesop

theorem isPrivateStep_map (t : Tree) : (t.map f).isPrivateStep = t.isPrivateStep := by
  cases t with
  | node k a =>
      cases k with
      | optionalStep =>
          cases a with
          | cat mark step => cases step <;> simp [isPrivateStep, hf]
          | _ => rfl
      | _ => rfl
  | _ => rfl

theorem isDeletable_map (t : Tree) : (t.map f).isDeletable = t.isDeletable := by
  rw [isDeletable, isDeletable, withoutParens_map]
  cases t.withoutParens with
  | node k a =>
      cases k with
      | chain =>
          cases a with
          | cat head steps =>
              simp only [map_node, map_cat, children_map, List.getLast?_map, Option.any_map,
                isPrivateStep_map hf]
          | _ => rfl
      | _ => rfl
  | _ => rfl

theorem powerOfUnary_map (ts : List Tree) : powerOfUnary (ts.map (map f)) = powerOfUnary ts := by
  fun_induction powerOfUnary ts with
  | case1 a b rest ih =>
      rw [List.map_cons] at ih
      simp [powerOfUnary, isMark_map hf, ih]
  | case2 ts hpair =>
      match ts with
      | [] => rfl
      | [t] => rfl
      | a :: b :: rest => exact absurd rfl (hpair a b rest)

theorem isSoundChain_map (parts : List Tree) :
    isSoundChain (parts.map (map f)) = isSoundChain parts := by
  simp only [isSoundChain, powerOfUnary_map hf, List.any_map, Function.comp_def, isMark_map hf]

end Kinds

/-! ## Class bodies -/

/-- What a node of a kind holds. -/
def content? (kind : Node) : Tree → Option Tree
  | .node k t => if k = kind then some t else none
  | _ => none

/-- The members of one sort in the body of a class. -/
def members (kind : Node) (t : Tree) : List Tree := t.children.filterMap (content? kind)

theorem content?_eq_some {t m : Tree} {kind : Node} :
    t.content? kind = some m ↔ t = node kind m := by
  cases t <;> simp [content?]

theorem part_of_mem_members {t m : Tree} {kind : Node} (h : m ∈ t.members kind) : Part m t := by
  rcases List.mem_filterMap.1 h with ⟨u, hu, hm⟩
  obtain rfl := content?_eq_some.1 hm
  exact ((Part.refl m).node kind).trans (part_of_mem_children hu)

theorem members_map (kind : Node) (t : Tree) :
    (t.map f).members kind = (t.members kind).map (map f) := by
  rw [members, members, children_map]
  refine filterMap_changed (fun u => ?_) t.children
  cases u with
  | node k a =>
      simp only [map_node, content?]
      split <;> rfl
  | _ => rfl

theorem isSoundClass_eq (t : Tree) :
    t.isSoundClass =
      (decide (((t.members .instanceMember).filter isConstructor).length ≤ 1) &&
        (t.members .instanceMember).all (fun m => isSoundInstance m && isSoundMember m) &&
        (t.members .staticMember).all fun m =>
          isSoundMember m && memberName? .field m != some "prototype") := by
  have hmembers : ∀ (kind : Node) (find : Tree → Option Tree),
      (∀ u m, find u = some m ↔ u = node kind m) →
      t.children.filterMap find = t.members kind := by
    intro kind find hfind
    refine List.filterMap_congr fun u _ => Option.ext fun m => ?_
    rw [hfind, content?_eq_some]
  -- The two sorts are picked out by their nodes.
  simp only [isSoundClass]
  rw [hmembers .instanceMember _ fun u m => ?_, hmembers .staticMember _ fun u m => ?_]
  all_goals split <;> simp_all

theorem all_map_of {p : Tree → Bool} {ms : List Tree} (hp : ∀ m ∈ ms, p (m.map f) = p m) :
    (ms.map (map f)).all p = ms.all p := by
  rw [List.all_map, Bool.eq_iff_iff, List.all_eq_true, List.all_eq_true]
  exact forall₂_congr fun m hm => by rw [Function.comp_apply, hp m hm]

theorem length_filter_map_of {p : Tree → Bool} {ms : List Tree}
    (hp : ∀ m ∈ ms, p (m.map f) = p m) :
    ((ms.map (map f)).filter p).length = (ms.filter p).length := by
  rw [List.filter_map, List.length_map]
  exact congrArg List.length (List.filter_congr hp)

/-! ## Conditions on strings -/

/-- Whether a change of tokens leaves what the strings of a tree say alone, as far as that is on one
line. -/
def KeepsQuoted (f : Token → Token) (t : Tree) : Prop :=
  ∀ token ∈ t.tokens, ∀ s, '\n' ∉ s → ((f token).quoted = s ↔ token.quoted = s)

theorem KeepsQuoted.part {s t : Tree} (h : KeepsQuoted f t) (hs : Part s t) : KeepsQuoted f s :=
  fun token htoken => h token (hs.mem_tokens htoken)

section Strings

variable {t : Tree} {k : Node} {s : Text} (hf : ∀ token, (f token).kind = token.kind)
include hf

theorem keyName?_map (ht : KeepsQuoted f t) (hs : '\n' ∉ s) :
    (t.map f).keyName? = some s ↔ t.keyName? = some s := by
  simp only [keyName?, child?_map]
  cases hkey : t.child? .key with
  | none => rfl
  | some key =>
      cases key with
      | leaf token =>
          have htoken : token ∈ t.tokens := (part_of_child? hkey).mem_tokens (by simp)
          simp only [Option.map_some, map_leaf, hf, word?_map hf]
          split
          · simpa [Token.quoted] using ht token htoken s hs
          · rfl
          · rfl
      | _ => rfl

/-- A statement that is a string stays one, and says the same. -/
theorem directive?_map (ht : KeepsQuoted f t) :
    (t.map f).directive?.isSome = t.directive?.isSome ∧
      ∀ s, '\n' ∉ s → ((((t.map f).directive?.getD []).drop 1).dropLast = s ↔
        ((t.directive?.getD []).drop 1).dropLast = s) := by
  cases t with
  | node k a =>
      cases k with
      | simpleStatement =>
          simp only [map_node, directive?, children_map]
          cases hchildren : a.children with
          | nil => simp
          | cons first rest =>
              cases first with
              | node k' b =>
                  cases k' with
                  | literal =>
                      cases b with
                      | leaf token =>
                          have hfirst : node .literal (leaf token) ∈ a.children := by
                            simp [hchildren]
                          have htoken : token ∈ (node .simpleStatement a).tokens :=
                            (part_of_mem_children hfirst).mem_tokens (by simp)
                          simp only [List.map_cons, map_node, map_leaf, hf]
                          split
                          · exact ⟨rfl, ht token htoken⟩
                          · simp
                      | _ => simp
                  | _ => simp
              | _ => simp
      | _ => simp [directive?]
  | _ => simp [directive?]

theorem isStrict_map (ht : KeepsQuoted f t) : (t.map f).isStrict = t.isStrict := by
  have hdirective : ∀ u ∈ t.children.drop 1, (u.map f).directive?.isSome = u.directive?.isSome ∧
      ∀ s, '\n' ∉ s → ((((u.map f).directive?.getD []).drop 1).dropLast = s ↔
        ((u.directive?.getD []).drop 1).dropLast = s) := fun u hu =>
    directive?_map hf (ht.part (part_of_mem_children (List.mem_of_mem_drop hu)))
  simp only [isStrict, children_map, ← List.map_drop]
  -- The directives are the longest run of such statements, so the induction is on the statements.
  generalize t.children.drop 1 = statements at hdirective
  induction statements with
  | nil => rfl
  | cons u us ih =>
      rcases hdirective u (by simp) with ⟨hsome, hsays⟩
      have hstrict := hsays "use strict".toList (by decide)
      have hrest := ih fun v hv => hdirective v (List.mem_cons_of_mem u hv)
      simp only [List.map_cons, List.takeWhile_cons, hsome]
      split
      · rw [List.any_cons, List.any_cons, hrest, beq_eq_decide, beq_eq_decide,
          decide_eq_decide.2 hstrict]
      · rfl

theorem isSoundFunction_map (ht : KeepsQuoted f t) :
    (t.map f).isSoundFunction = t.isSoundFunction := by
  simp only [isSoundFunction, hasFancyParameters_map, child?_map]
  cases hbody : t.child? .body with
  | none => rfl
  | some body =>
      have hpart := ((Part.refl body).node .body).trans (part_of_child? hbody)
      simp [isStrict_map hf (ht.part hpart)]

/-! ## Members of classes -/

/-- A member has a name on one line exactly when it had it before. -/
theorem memberName?_map (ht : KeepsQuoted f t) (k : Node) {name : Option Text}
    (hname : name = some s) (hs : '\n' ∉ s) :
    (memberName? k (t.map f) == name) = (memberName? k t == name) := by
  subst hname
  rw [beq_eq_decide, beq_eq_decide, decide_eq_decide]
  simp only [memberName?, child?_map]
  cases hchild : t.child? k with
  | none => rfl
  | some member =>
      have hpart := ((Part.refl member).node k).trans (part_of_child? hchild)
      exact keyName?_map hf (ht.part hpart) hs

theorem isConstructor_map (ht : KeepsQuoted f t) : (t.map f).isConstructor = t.isConstructor := by
  have hname : (memberName? (.method false false) (t.map f) == some "constructor") =
      (memberName? (.method false false) t == some "constructor") :=
    memberName?_map hf ht _ rfl (by decide)
  have hbody : (((t.map f).child? (.method false false)).bind (child? .body)).isSome =
      ((t.child? (.method false false)).bind (child? .body)).isSome := by
    rw [child?_map]
    cases t.child? (.method false false) <;> simp [child?_map]
  rw [isConstructor, isConstructor, hname, hbody]

theorem isSoundInstance_map (ht : KeepsQuoted f t) :
    (t.map f).isSoundInstance = t.isSoundInstance := by
  have hname : ∀ k, (memberName? k (t.map f) == some "constructor") =
      (memberName? k t == some "constructor") := fun k => memberName?_map hf ht k rfl (by decide)
  have hpart : ∀ kind, (((t.map f).child? (.method false false)).bind (child? kind)).isNone =
      ((t.child? (.method false false)).bind (child? kind)).isNone := by
    intro kind
    rw [child?_map]
    cases t.child? (.method false false) <;> simp [child?_map]
  simp only [isSoundInstance, isPlainConstructor, bne, hname, hpart]

theorem isSoundMember_map (ht : KeepsQuoted f t) :
    (t.map f).isSoundMember = t.isSoundMember := by
  have hname : ∀ k, (memberName? k (t.map f) == some "constructor") =
      (memberName? k t == some "constructor") := fun k => memberName?_map hf ht k rfl (by decide)
  have hprivate : ∀ k, (memberName? k (t.map f) == some "#constructor") =
      (memberName? k t == some "#constructor") := fun k => memberName?_map hf ht k rfl (by decide)
  simp only [isSoundMember, bne, hname, hprivate]

theorem isSoundClass_map (ht : KeepsQuoted f t) : (t.map f).isSoundClass = t.isSoundClass := by
  have hmember : ∀ {kind : Node} {m : Tree}, m ∈ t.members kind → KeepsQuoted f m :=
    fun hm => ht.part (part_of_mem_members hm)
  have hname : ∀ m ∈ t.members .staticMember, (memberName? .field (m.map f) == some "prototype") =
      (memberName? .field m == some "prototype") := fun m hm =>
    memberName?_map hf (hmember hm) .field rfl (by decide)
  rw [isSoundClass_eq, isSoundClass_eq, members_map, members_map,
    length_filter_map_of fun m hm => isConstructor_map hf (hmember hm),
    all_map_of fun m hm => ?_, all_map_of fun m hm => ?_]
  · rw [isSoundMember_map hf (hmember hm), bne, hname m hm]
    rfl
  · rw [isSoundInstance_map hf (hmember hm), isSoundMember_map hf (hmember hm)]

end Strings
end Tree

/-! ## Surroundings -/

namespace Context

variable {f : Token → Token} (hf : ∀ token, (f token).kind = token.kind)
include hf

theorem enter_map (c : Context) (k : Node) (t : Tree) : c.enter k (t.map f) = c.enter k t := by
  cases k with
  | labelled =>
      have hloop := Tree.labelsLoop_map (f := f) (.node .labelled t)
      simp only [enter, Tree.labelName?_map hf, ← hloop, Tree.map_node]
  | _ => rfl

theorem permits_map {t : Tree} (ht : Tree.KeepsQuoted f t) (c : Context) (k : Node) :
    c.permits k (t.map f) = c.permits k t := by
  cases k with
  | function | method | arrow | setter => exact Tree.isSoundFunction_map hf ht
  | identifier =>
      simp only [permits, Tree.firstToken?_map]
      cases t.firstToken? <;> simp [hf]
  | «break» | «continue» | labelled => simp only [permits, Tree.labelName?_map hf]
  | switch =>
      simp only [permits, Tree.children_map, List.filter_map, List.length_map, Function.comp_def,
        Tree.isNode_map]
  | assignment isPlain =>
      cases t <;> simp [permits, Tree.isTarget_map hf, Tree.isSimpleTarget_map hf]
  | eachTarget => exact Tree.isTarget_map hf t
  | prefixUpdate | postfixUpdate => cases t <;> simp [permits, Tree.isSimpleTarget_map hf]
  | unary =>
      cases t with
      | cat op operand => cases op <;> simp [permits, hf, Tree.isDeletable_map hf]
      | _ => rfl
  | binary => simp only [permits, Tree.children_map, Tree.isSoundChain_map hf]
  | chain =>
      simp only [permits, Tree.children_map, List.any_map, Function.comp_def, Tree.isNode_map]
  | classDefinition => exact Tree.isSoundClass_map hf ht
  | _ => rfl

end Context

/-- A tree is as sound with other tokens as before. -/
theorem Tree.isSound_map {f : Token → Token} (hf : ∀ token, (f token).kind = token.kind) {t : Tree}
    (ht : KeepsQuoted f t) (c : Context) : (t.map f).isSound c = t.isSound c := by
  induction t generalizing c with
  | empty => rfl
  | leaf token => rfl
  | cat a b iha ihb =>
      have ha := iha (ht.part ((Part.refl a).cat_left b))
      have hb := ihb (ht.part ((Part.refl b).cat_right a))
      simp only [map_cat, isSound, ha, hb]
  | node k a ih =>
      have ha : KeepsQuoted f a := ht.part ((Part.refl a).node k)
      simp only [map_node, isSound, Context.permits_map hf ha, Context.enter_map hf, ih ha]

/-! ## What counts of a token -/

/-- What counts of a token: what it is and how it is written, unless it goes over a line end. -/
def Token.essence (t : Token) : Token :=
  ⟨t.kind, [], if '\n' ∈ t.quoted then ['\x22', '\n', '\x22'] else t.raw, false⟩

theorem Token.kind_eq_of_essence {t u : Token} (h : t.essence = u.essence) : t.kind = u.kind :=
  (Token.mk.inj h).1

theorem Token.essence_eq {t u : Token} (hkind : t.kind = u.kind)
    (h : t.raw = u.raw ∨ '\n' ∈ t.quoted ∧ '\n' ∈ u.quoted) : t.essence = u.essence := by
  rcases h with hraw | ⟨ht, hu⟩
  · rw [essence, essence, hkind, quoted, quoted, hraw]
  · rw [essence, essence, hkind, if_pos ht, if_pos hu]

/-- Trees that differ in what does not count are equally sound. -/
theorem Tree.isSound_of_essence {t u : Tree} (h : t.map Token.essence = u.map Token.essence)
    (c : Context) : t.isSound c = u.isSound c := by
  have hkeeps : ∀ t : Tree, KeepsQuoted Token.essence t := by
    intro t token _ s hs
    have hquoted : token.essence.quoted = if '\n' ∈ token.quoted then ['\n'] else token.quoted := by
      rw [Token.quoted, Token.essence]
      split <;> rfl
    rw [hquoted]
    split
    next hfeed =>
      constructor
      · rintro rfl
        simp at hs
      · rintro rfl
        exact absurd hfeed hs
    next => rfl
  have hkind : ∀ token : Token, token.essence.kind = token.kind := fun _ => rfl
  rw [← isSound_map hkind (hkeeps t), h, isSound_map hkind (hkeeps u)]

/-- The parts of a tree without early errors have none. -/
theorem Tree.isSound_of_mem_children {c : Context} {t u : Tree} (h : t.isSound c = true)
    (hu : u ∈ t.children) : u.isSound c = true := by
  induction t with
  | empty => cases hu
  | leaf token =>
      rw [List.mem_singleton.1 hu]
      rfl
  | cat a b iha ihb =>
      simp only [isSound, Bool.and_eq_true] at h
      rw [children_cat, List.mem_append] at hu
      exact hu.elim (iha h.2) (ihb h.1)
  | node k a =>
      rw [List.mem_singleton.1 hu]
      exact h

end Script
end ProcedureGen
