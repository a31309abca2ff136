import ProcedureGen.Proofs.Script.Nesting
import ProcedureGen.Signature

/-!
# Trees

What stands below a node is a part of the tree.  What is looked up in a tree is found in the same
place when its tokens are changed.  The layout of a script, that is where its tokens stand and what
comments are between them, is one of the things that may be changed.

* `Tree.children_cat` and the like: the subtrees below a node;
* `Tree.Part`: a subtree, whose tokens stand together;
* `Tree.map`: a tree with every token changed;
* `Tree.tokens_map`, `Tree.children_map`, `Tree.child?_map`: what is looked up in it;
* `Tree.bare`: a tree without its layout.
-/

namespace ProcedureGen
namespace Script

/-- A token without the gap in front of it. -/
def Token.bare (t : Token) : Token := { t with gap := [], onNewLine := false }

@[simp] theorem Token.word?_bare (t : Token) : t.bare.word? = t.word? := rfl

namespace Tree

/-! ## Children -/

theorem childrenThen_eq (t : Tree) (rest : List Tree) :
    t.childrenThen rest = t.children ++ rest := by
  induction t generalizing rest with
  | empty => rfl
  | leaf token => rfl
  | cat a b iha ihb =>
      have hboth : (cat a b).children = a.children ++ (b.children ++ []) := by
        rw [children, childrenThen, iha, ihb]
      rw [hboth, childrenThen, iha, ihb]
      simp
  | node k a => rfl

@[simp] theorem children_empty : empty.children = [] := rfl

@[simp] theorem children_leaf (token : Token) : (leaf token).children = [leaf token] := rfl

@[simp] theorem children_cat (a b : Tree) : (cat a b).children = a.children ++ b.children := by
  rw [children, childrenThen, childrenThen_eq, childrenThen_eq, List.append_nil]

@[simp] theorem children_node (k : Node) (a : Tree) : (node k a).children = [node k a] := rfl

/-! ## Subtrees -/

section Parts

variable {s t u : Tree} {k : Node}

/-- A tree inside another one. -/
structure Part (s t : Tree) : Prop where
  tokens : ∃ before after, t.tokens = before ++ (s.tokens ++ after)
  nested : t.Nested → s.Nested

namespace Part

theorem refl (t : Tree) : Part t t := ⟨⟨[], [], by simp⟩, id⟩

theorem trans (h : Part s t) (h' : Part t u) : Part s u := by
  rcases h.tokens with ⟨before, after, htokens⟩
  rcases h'.tokens with ⟨before', after', htokens'⟩
  exact ⟨⟨before' ++ before, after ++ after', by simp [htokens', htokens]⟩,
    fun hu => h.nested (h'.nested hu)⟩

theorem cat_left (h : Part s t) (u : Tree) : Part s (.cat t u) :=
  h.trans ⟨⟨[], u.tokens, by simp⟩, fun hboth => hboth.1⟩

theorem cat_right (h : Part s t) (u : Tree) : Part s (.cat u t) :=
  h.trans ⟨⟨u.tokens, [], by simp⟩, fun hboth => hboth.2⟩

theorem node (h : Part s t) (k : Node) : Part s (.node k t) :=
  h.trans ⟨⟨[], [], by simp⟩, fun hboth => hboth.2⟩

theorem mem_tokens {token : Token} (h : Part s t) (htoken : token ∈ s.tokens) :
    token ∈ t.tokens := by
  rcases h.tokens with ⟨before, after, htokens⟩
  simp [htokens, htoken]

/-- What is a part of what has been read has been read itself. -/
theorem leads {goals : List Goal} {x z : Text} (h : Part s t) (hleads : Leads goals x t.tokens z) :
    ∃ goals x z, Leads goals x s.tokens z := by
  rcases h.tokens with ⟨before, after, htokens⟩
  rw [htokens] at hleads
  rcases hleads.split with ⟨_, _, y, -, hbehind⟩
  rcases hbehind.split with ⟨goals, _, z, hinside, -⟩
  exact ⟨goals, y, z, hinside⟩

end Part

/-- What stands below a node is a part of it. -/
theorem part_of_mem_childrenThen {rest : List Tree} (h : s ∈ t.childrenThen rest) :
    s ∈ rest ∨ Part s t := by
  induction t generalizing rest with
  | empty => exact .inl h
  | leaf token =>
      rcases List.mem_cons.1 h with rfl | h
      · exact .inr (.refl _)
      · exact .inl h
  | cat a b iha ihb =>
      rcases iha h with h | h
      · exact (ihb h).imp_right fun h => h.cat_right a
      · exact .inr (h.cat_left b)
  | node k a =>
      rcases List.mem_cons.1 h with rfl | h
      · exact .inr (.refl _)
      · exact .inl h

theorem part_of_mem_children (h : s ∈ t.children) : Part s t :=
  (part_of_mem_childrenThen h).resolve_left (by simp)

theorem part_of_child? (h : t.child? k = some s) : Part (.node k s) t := by
  induction t with
  | empty => cases h
  | leaf token => cases h
  | cat a b iha ihb =>
      simp only [child?] at h
      split at h
      next u hfound => exact (iha (hfound.trans h)).cat_left b
      · exact (ihb h).cat_right a
  | node k' a =>
      simp only [child?] at h
      split at h
      next hk =>
        obtain rfl := Option.some.inj h
        rw [hk]
        exact .refl _
      · cases h

/-- What is looked up below a node is a part of it, if it is a part of what it is looked up in. -/
theorem part_of_findSome? {find : Tree → Option Tree} (hfind : ∀ c u, find c = some u → Part u c)
    (h : t.children.findSome? find = some s) : Part s t := by
  rcases List.exists_of_findSome?_eq_some h with ⟨c, hc, hs⟩
  exact (hfind c s hs).trans (part_of_mem_children hc)

theorem part_of_function? (h : t.function? = some s) : Part s t := by
  unfold function? at h
  split at h
  case h_1 | h_2 =>
    refine (part_of_findSome? (fun c u hu => ?_) h).node _
    split at hu
    next f =>
      obtain rfl := Option.some.inj hu
      exact (Part.refl f).node _
    · cases hu
  · cases h

end Parts

/-! ## Changing tokens -/

theorem filterMap_changed {change : Tree → Tree} {find : Tree → Option Tree}
    (hfind : ∀ t, find (change t) = (find t).map change) (ts : List Tree) :
    (ts.map change).filterMap find = (ts.filterMap find).map change := by
  rw [List.filterMap_map, List.map_filterMap]
  exact List.filterMap_congr fun t _ => hfind t

theorem filter_changed {change : Tree → Tree} {keep : Tree → Bool}
    (hkeep : ∀ t, keep (change t) = keep t) (ts : List Tree) :
    (ts.filter keep).map change = (ts.map change).filter keep := by
  rw [List.filter_map]
  exact congrArg _ (List.filter_congr fun t _ => (hkeep t).symm)

/-- What is found in a list of trees is found in a list of changed trees as well. -/
theorem findSome?_changed {change : Tree → Tree} {find : Tree → Option Tree}
    (hfind : ∀ t, find (change t) = (find t).map change) (ts : List Tree) :
    (ts.map change).findSome? find = (ts.findSome? find).map change := by
  induction ts with
  | nil => rfl
  | cons t ts ih =>
      rw [List.map_cons, List.findSome?_cons, List.findSome?_cons, hfind, ih]
      cases find t <;> rfl

/-- A tree with every token changed. -/
def map (f : Token → Token) : Tree → Tree
  | .empty => .empty
  | .leaf t => .leaf (f t)
  | .cat a b => .cat (a.map f) (b.map f)
  | .node k a => .node k (a.map f)

section Map

variable (f : Token → Token)

@[simp] theorem map_empty : empty.map f = empty := rfl

@[simp] theorem map_leaf (t : Token) : (leaf t).map f = leaf (f t) := rfl

@[simp] theorem map_cat (a b : Tree) : (cat a b).map f = cat (a.map f) (b.map f) := rfl

@[simp] theorem map_node (k : Node) (a : Tree) : (node k a).map f = node k (a.map f) := rfl

theorem tokens_map (t : Tree) : (t.map f).tokens = t.tokens.map f := by
  induction t with
  | empty => rfl
  | leaf token => rfl
  | cat a b iha ihb => simp [iha, ihb]
  | node k a ih => simpa using ih

theorem children_map (t : Tree) : (t.map f).children = t.children.map (map f) := by
  induction t with
  | empty => rfl
  | leaf token => rfl
  | cat a b iha ihb => simp [iha, ihb]
  | node k a => rfl

@[simp] theorem isNode_map (k : Node) (t : Tree) : (t.map f).isNode k = t.isNode k := by
  cases t <;> rfl

theorem child?_map (k : Node) (t : Tree) : (t.map f).child? k = (t.child? k).map (map f) := by
  induction t with
  | empty => rfl
  | leaf token => rfl
  | cat a b iha ihb =>
      simp only [map_cat, child?, iha, ihb]
      cases a.child? k <;> rfl
  | node k' a =>
      simp only [map_node, child?]
      split <;> rfl

theorem firstToken?_map (t : Tree) : (t.map f).firstToken? = t.firstToken?.map f := by
  induction t with
  | empty => rfl
  | leaf token => rfl
  | cat a b iha ihb =>
      simp only [map_cat, firstToken?, iha, ihb]
      cases a.firstToken? <;> rfl
  | node k a ih => exact ih

theorem function?_map (item : Tree) : (item.map f).function? = item.function?.map (map f) := by
  cases item with
  | node k a =>
      cases k with
      | exportedFunction | bareFunction =>
          simp only [map_node, function?, children_map]
          refine findSome?_changed (fun t => ?_) a.children
          cases t with
          | node k a => cases k <;> rfl
          | _ => rfl
      | _ => rfl
  | _ => rfl

/-- A function keeps its name, as long as the words stay the same. -/
theorem functionName_map (hf : ∀ t, (f t).word? = t.word?) (g : Tree) :
    (g.map f).functionName = g.functionName := by
  simp only [functionName, child?_map]
  cases g.child? .functionName with
  | none => rfl
  | some t =>
      simp only [Option.map_some, Option.bind_some, firstToken?_map]
      cases t.firstToken? with
      | none => rfl
      | some token => simp [hf]

end Map

/-! ## Layout -/

/-- A tree without the gaps between its tokens. -/
def bare : Tree → Tree
  | .empty => .empty
  | .leaf t => .leaf t.bare
  | .cat a b => .cat a.bare b.bare
  | .node k a => .node k a.bare

@[simp] theorem bare_empty : empty.bare = empty := rfl

@[simp] theorem bare_leaf (t : Token) : (leaf t).bare = leaf t.bare := rfl

@[simp] theorem bare_cat (a b : Tree) : (cat a b).bare = cat a.bare b.bare := rfl

@[simp] theorem bare_node (k : Node) (a : Tree) : (node k a).bare = node k a.bare := rfl

/-- The layout is taken out token by token. -/
theorem bare_eq : bare = map Token.bare := by
  funext t
  induction t with
  | empty => rfl
  | leaf token => rfl
  | cat a b iha ihb => simp [iha, ihb]
  | node k a ih => simp [ih]

/-- A tree without its layout holds the tokens of the tree without their gaps. -/
theorem tokens_bare (t : Tree) : t.bare.tokens = t.tokens.map Token.bare := by
  rw [bare_eq, tokens_map]

theorem children_bare (t : Tree) : t.bare.children = t.children.map bare := by
  rw [bare_eq, children_map]

theorem child?_bare (k : Node) (t : Tree) : t.bare.child? k = (t.child? k).map bare := by
  rw [bare_eq, child?_map]

theorem function?_bare (item : Tree) : item.bare.function? = item.function?.map bare := by
  rw [bare_eq, function?_map]

theorem functionName_bare (g : Tree) : g.bare.functionName = g.functionName := by
  rw [bare_eq, functionName_map _ Token.word?_bare]

end Tree

end Script
end ProcedureGen
