import ProcedureGen.Proofs.Json.Token
import ProcedureGen.Proofs.Json.Value
import ProcedureGen.Proofs.Text

/-!
# The grammar of drafts

A draft without faults is spelled by the tokens that are read for it, whatever stands behind them.

* `Draft.Spells`: the tokens of a draft, and how many arrays and objects stand in one another;
* `Draft.Spells.read`: what is spelled is read;
* `Draft.leavesSpelled_read`: what is read without a fault has been spelled;
* `Draft.Spells.unique`: tokens spell one draft, and none if something is put behind them;
* `readAll_objectText`: an object put together from the texts of its members;
* `Value.ofText_eq_ok_iff`: the texts that have a value.
-/

namespace ProcedureGen

namespace Json

/-- Lists of tokens with commas between them. -/
def commaSeparated : List (List Token) → List Token
  | [] => []
  | ts :: more => ts ++ more.flatMap (.comma :: ·)

/-- There are more tokens than parts with a comma in front. -/
theorem length_lt_flatMap_comma (tss : List (List Token)) (tok : Token) (more : List Token) :
    tss.length < (tss.flatMap (.comma :: ·) ++ tok :: more).length := by
  induction tss with
  | nil => exact Nat.succ_pos _
  | cons ts tss ih =>
      simp only [List.length_cons, List.flatMap_cons, List.length_append] at ih ⊢
      omega

theorem commaSeparated_cons {tss : List (List Token)} (h : tss ≠ []) (ts : List Token) :
    commaSeparated (ts :: tss) = ts ++ .comma :: commaSeparated tss := by
  cases tss with
  | nil => exact absurd rfl h
  | cons ts' tss => simp [commaSeparated]

theorem infix_commaSeparated {ts : List Token} {tss : List (List Token)} (h : ts ∈ tss) :
    ts <:+: commaSeparated tss := by
  induction tss with
  | nil => cases h
  | cons ts' tss ih =>
      rcases List.mem_cons.1 h with rfl | h
      · exact (List.prefix_append _ _).isInfix
      · rw [commaSeparated_cons (List.ne_nil_of_mem h)]
        exact (ih h).trans ((List.suffix_cons _ _).trans (List.suffix_append _ _)).isInfix

/-- The tokens of a member, by its key and the tokens of its value. -/
def memberTokens (key : Text) (ts : List Token) : List Token := .string key :: .colon :: ts

namespace Draft

/-- Tokens that spell a draft, in which so many arrays and objects may stand in one another. -/
inductive Spells : Nat → List Token → Draft → Prop
  | scalar (n : Nat) (s : Scalar) : Spells n [.scalar s] (.scalar s)
  | string (n : Nat) (t : Text) : Spells n [.string t] (.scalar (.string t))
  | array {n : Nat} {parts : List (List Token × Draft)} (h : ∀ p ∈ parts, Spells n p.1 p.2) :
      Spells (n + 1)
        (.openBracket :: (commaSeparated (parts.map fun p => p.1) ++ [.closeBracket]))
        (.array (parts.map fun p => p.2) none)
  | object {n : Nat} {parts : List (Text × List Token × Draft)}
      (h : ∀ p ∈ parts, Spells n p.2.1 p.2.2) :
      Spells (n + 1)
        (.openBrace ::
          (commaSeparated (parts.map fun p => memberTokens p.1 p.2.1) ++ [.closeBrace]))
        (.object (parts.map fun p => (p.1, p.2.2)) none)

variable {n m : Nat} {d : Draft} {ts rest more : List Token} {tok : Token}
  {item : List Token → Read Draft}

/-! ## What is spelled is read -/

/-- A draft begins with no token that ends something or stands between parts. -/
theorem Spells.exists_cons (h : Spells n ts d) : ∃ tok rest, ts = tok :: rest ∧
    tok ≠ .closeBracket := by
  cases h with
  | scalar | string | array | object => exact ⟨_, _, rfl, by simp⟩

theorem moreItems_comma (hne : tok ≠ .closeBracket) {ds : List Draft} {stop : Option Fault}
    {rest' rest'' : List Token} (hitem : item (tok :: rest) = (d, rest'))
    (hmore : moreItems item n rest' = ((ds, stop), rest'')) :
    moreItems item (n + 1) (.comma :: tok :: rest) = ((d :: ds, stop), rest'') := by
  cases tok with
  | closeBracket => exact absurd rfl hne
  | _ => simp only [moreItems, hitem, hmore]

/-- The reader stops at the closing bracket, so that any fuel above the number of parts will do. -/
theorem moreItems_spelled {parts : List (List Token × Draft)}
    (h : ∀ p ∈ parts, Spells m p.1 p.2 ∧ ∀ more, item (p.1 ++ more) = (p.2, more))
    (hn : parts.length < n) (more : List Token) :
    moreItems item n ((parts.map fun p => p.1).flatMap (.comma :: ·) ++ .closeBracket :: more) =
      ((parts.map fun p => p.2, none), more) := by
  induction parts generalizing n with
  | nil =>
      obtain ⟨n, rfl⟩ : ∃ k, n = k + 1 := ⟨n - 1, by simp at hn; omega⟩
      rfl
  | cons p parts ih =>
      obtain ⟨n, rfl⟩ : ∃ k, n = k + 1 := ⟨n - 1, by simp at hn; omega⟩
      rcases h p (by simp) with ⟨hspells, hread⟩
      rcases hspells.exists_cons with ⟨tok, ts, hts, hne⟩
      have hmore := ih (fun q hq => h q (List.mem_cons_of_mem _ hq)) (by simpa using hn)
      have hitem := hread ((parts.map fun p => p.1).flatMap (.comma :: ·) ++ .closeBracket :: more)
      rw [hts] at hitem
      simp only [List.map_cons, List.flatMap_cons, hts, List.cons_append, List.append_assoc]
      exact moreItems_comma hne hitem hmore

theorem readItems_spelled {parts : List (List Token × Draft)}
    (h : ∀ p ∈ parts, Spells m p.1 p.2 ∧ ∀ more, item (p.1 ++ more) = (p.2, more))
    (more : List Token) :
    readItems item (commaSeparated (parts.map fun p => p.1) ++ .closeBracket :: more) =
      ((parts.map fun p => p.2, none), more) := by
  cases parts with
  | nil => rfl
  | cons p parts =>
      rcases h p (by simp) with ⟨hspells, hread⟩
      rcases hspells.exists_cons with ⟨tok, ts, hts, hne⟩
      have hmore := fun n (hn : parts.length < n) => moreItems_spelled
        (fun q hq => h q (List.mem_cons_of_mem _ hq)) hn more
      have hitem := hread ((parts.map fun p => p.1).flatMap (.comma :: ·) ++ .closeBracket :: more)
      rw [hts] at hitem
      simp only [List.map_cons, commaSeparated, hts, List.cons_append, List.append_assoc]
      rw [List.cons_append] at hitem
      have hfuel := length_lt_flatMap_comma (parts.map fun p => p.1) .closeBracket more
      rw [List.length_map] at hfuel
      cases tok with
      | closeBracket => exact absurd rfl hne
      | _ => simp only [readItems, hitem, hmore _ hfuel]

theorem moreMembers_spelled {parts : List (Text × List Token × Draft)}
    (h : ∀ p ∈ parts, ∀ more, item (p.2.1 ++ more) = (p.2.2, more)) (hn : parts.length < n)
    (more : List Token) :
    moreMembers item n
        ((parts.map fun p => memberTokens p.1 p.2.1).flatMap (.comma :: ·) ++ .closeBrace :: more) =
      ((parts.map fun p => (p.1, p.2.2), none), more) := by
  induction parts generalizing n with
  | nil =>
      obtain ⟨n, rfl⟩ : ∃ k, n = k + 1 := ⟨n - 1, by simp at hn; omega⟩
      rfl
  | cons p parts ih =>
      obtain ⟨n, rfl⟩ : ∃ k, n = k + 1 := ⟨n - 1, by simp at hn; omega⟩
      have hmore := ih (fun q hq => h q (List.mem_cons_of_mem _ hq)) (by simpa using hn)
      simp only [List.map_cons, List.flatMap_cons, memberTokens, List.cons_append,
        List.append_assoc, moreMembers, readMemberValue, h p (by simp)]
      simp only [memberTokens] at hmore
      simp only [hmore]

theorem readMembers_spelled {parts : List (Text × List Token × Draft)}
    (h : ∀ p ∈ parts, ∀ more, item (p.2.1 ++ more) = (p.2.2, more)) (more : List Token) :
    readMembers item
        (commaSeparated (parts.map fun p => memberTokens p.1 p.2.1) ++ .closeBrace :: more) =
      ((parts.map fun p => (p.1, p.2.2), none), more) := by
  cases parts with
  | nil => rfl
  | cons p parts =>
      have hfuel := length_lt_flatMap_comma (parts.map fun p => memberTokens p.1 p.2.1)
        .closeBrace more
      rw [List.length_map] at hfuel
      have hmore := moreMembers_spelled (fun q hq => h q (List.mem_cons_of_mem _ hq)) hfuel more
      simp only [List.map_cons, commaSeparated, memberTokens, List.cons_append,
        List.append_assoc, readMembers, readMemberValue, h p (by simp)]
      simp only [memberTokens] at hmore
      simp only [hmore]

/-- What is spelled is read, whatever follows. -/
theorem Spells.read (h : Spells n ts d) (more : List Token) :
    Draft.read n (ts ++ more) = (d, more) := by
  induction h generalizing more with
  | scalar n s => cases n <;> rfl
  | string n t => cases n <;> rfl
  | @array n parts h ih =>
      rw [List.cons_append, List.append_assoc, List.singleton_append, Draft.read,
        readItems_spelled fun p hp => ⟨h p hp, ih p hp⟩]
  | @object n parts h ih =>
      rw [List.cons_append, List.append_assoc, List.singleton_append, Draft.read,
        readMembers_spelled fun p hp => ih p hp]

/-! ## What is read has been spelled -/

/-- No fault is in a draft. -/
def IsSound (d : Draft) : Prop := ∃ v, Value.ofDraft d = .ok v

theorem not_isSound_fault (f : Fault) : ¬ IsSound (.fault f) := by
  rintro ⟨v, hv⟩
  cases hv

theorem IsSound.of_items {ds : List Draft} {stop : Option Fault} (h : IsSound (.array ds stop)) :
    stop = none ∧ ∀ d ∈ ds, IsSound d := by
  rcases h with ⟨v, hv⟩
  rcases Value.ofDraft_array_eq_ok_iff.1 hv with ⟨hstop, vs, hvs, -⟩
  refine ⟨hstop, fun d hd => ?_⟩
  rcases List.mem_iff_getElem.1 hd with ⟨i, hi, rfl⟩
  exact ⟨_, hvs.get hi (hvs.length_eq ▸ hi)⟩

theorem IsSound.of_members {ms : List (Text × Draft)} {stop : Option Fault}
    (h : IsSound (.object ms stop)) : stop = none ∧ ∀ m ∈ ms, IsSound m.2 := by
  rcases h with ⟨v, hv⟩
  rcases Value.ofDraft_object_eq_ok_iff.1 hv with ⟨hstop, vs, hvs, -⟩
  refine ⟨hstop, fun m hm => ?_⟩
  rcases List.mem_iff_getElem.1 hm with ⟨i, hi, rfl⟩
  exact ⟨_, (hvs.get hi (hvs.length_eq ▸ hi)).2⟩

/-- A reader leaves what stands behind the tokens of a sound draft. -/
def LeavesSpelled (m : Nat) (item : List Token → Read Draft) : Prop :=
  ∀ {ts d rest}, item ts = (d, rest) → IsSound d → ∃ front, Spells m front d ∧ ts = front ++ rest

/-- Only a closing bracket ends items without a fault. -/
theorem exists_spells_of_moreItems (hitem : LeavesSpelled m item) {ds : List Draft}
    (h : moreItems item n ts = ((ds, none), rest)) (hds : ∀ d ∈ ds, IsSound d) :
    ∃ parts : List (List Token × Draft), (∀ p ∈ parts, Spells m p.1 p.2) ∧
      ds = parts.map (fun p => p.2) ∧
      ts = (parts.map fun p => p.1).flatMap (.comma :: ·) ++ .closeBracket :: rest := by
  fun_induction moreItems item n ts generalizing ds rest with
  | case3 =>
      cases h
      exact ⟨[], by simp, rfl, rfl⟩
  | case6 n ts _ _ d ts' hfirst ds' stop rest' hmore ih =>
      cases h
      rcases hitem hfirst (hds d (by simp)) with ⟨front, hfront, rfl⟩
      rcases ih hmore fun d' hd' => hds d' (List.mem_cons_of_mem d hd') with
        ⟨parts, hparts, rfl, rfl⟩
      exact ⟨(front, d) :: parts, List.forall_mem_cons.2 ⟨hfront, hparts⟩, rfl, by simp⟩
  | case1 | case2 | case4 | case5 | case7 => cases h

theorem exists_spells_of_readItems (hitem : LeavesSpelled m item) {ds : List Draft}
    (h : readItems item ts = ((ds, none), rest)) (hds : ∀ d ∈ ds, IsSound d) :
    ∃ parts : List (List Token × Draft), (∀ p ∈ parts, Spells m p.1 p.2) ∧
      ds = parts.map (fun p => p.2) ∧
      ts = commaSeparated (parts.map fun p => p.1) ++ .closeBracket :: rest := by
  unfold readItems at h
  split at h
  case h_1 => cases h
  case h_2 =>
    cases h
    exact ⟨[], by simp, rfl, rfl⟩
  case h_3 =>
    rcases hfirst : item ts with ⟨d, ts'⟩
    rcases hmore : moreItems item ts'.length ts' with ⟨⟨ds', stop⟩, rest'⟩
    simp only [hfirst, hmore] at h
    cases h
    rcases hitem hfirst (hds d (by simp)) with ⟨front, hfront, rfl⟩
    rcases exists_spells_of_moreItems hitem hmore
      fun d' hd' => hds d' (List.mem_cons_of_mem d hd') with ⟨parts, hparts, rfl, rfl⟩
    exact ⟨(front, d) :: parts, List.forall_mem_cons.2 ⟨hfront, hparts⟩, rfl,
      by simp [commaSeparated]⟩

theorem colon_of_readMemberValue (h : readMemberValue item ts = (d, rest)) (hd : IsSound d) :
    ∃ ts', ts = .colon :: ts' ∧ item ts' = (d, rest) := by
  unfold readMemberValue at h
  split at h
  case h_1 ts' => exact ⟨ts', rfl, h⟩
  case h_2 | h_3 =>
    obtain ⟨rfl, -⟩ := Prod.mk.inj h
    exact (not_isSound_fault _ hd).elim

theorem exists_spells_of_moreMembers (hitem : LeavesSpelled m item) {ms : List (Text × Draft)}
    (h : moreMembers item n ts = ((ms, none), rest)) (hms : ∀ m ∈ ms, IsSound m.2) :
    ∃ parts : List (Text × List Token × Draft), (∀ p ∈ parts, Spells m p.2.1 p.2.2) ∧
      ms = parts.map (fun p => (p.1, p.2.2)) ∧
      ts = (parts.map fun p => memberTokens p.1 p.2.1).flatMap (.comma :: ·) ++
        .closeBrace :: rest := by
  fun_induction moreMembers item n ts generalizing ms rest with
  | case3 =>
      cases h
      exact ⟨[], by simp, rfl, rfl⟩
  | case6 n key ts d ts' hfirst ms' stop rest' hmore ih =>
      cases h
      have hd := hms (key, d) (by simp)
      rcases colon_of_readMemberValue hfirst hd with ⟨ts', rfl, hvalue⟩
      rcases hitem hvalue hd with ⟨front, hfront, rfl⟩
      rcases ih hmore fun m hm => hms m (List.mem_cons_of_mem _ hm) with ⟨parts, hparts, rfl, rfl⟩
      exact ⟨(key, front, d) :: parts, List.forall_mem_cons.2 ⟨hfront, hparts⟩, rfl,
        by simp [memberTokens]⟩
  | case1 | case2 | case4 | case5 | case7 | case8 | case9 => cases h

theorem exists_spells_of_readMembers (hitem : LeavesSpelled m item) {ms : List (Text × Draft)}
    (h : readMembers item ts = ((ms, none), rest)) (hms : ∀ m ∈ ms, IsSound m.2) :
    ∃ parts : List (Text × List Token × Draft), (∀ p ∈ parts, Spells m p.2.1 p.2.2) ∧
      ms = parts.map (fun p => (p.1, p.2.2)) ∧
      ts = commaSeparated (parts.map fun p => memberTokens p.1 p.2.1) ++ .closeBrace :: rest := by
  unfold readMembers at h
  split at h
  case h_1 | h_4 | h_5 => cases h
  case h_2 =>
    cases h
    exact ⟨[], by simp, rfl, rfl⟩
  case h_3 key ts =>
    rcases hfirst : readMemberValue item ts with ⟨d, ts'⟩
    rcases hmore : moreMembers item ts'.length ts' with ⟨⟨ms', stop⟩, rest'⟩
    simp only [hfirst, hmore] at h
    cases h
    have hd := hms (key, d) (by simp)
    rcases colon_of_readMemberValue hfirst hd with ⟨ts', rfl, hvalue⟩
    rcases hitem hvalue hd with ⟨front, hfront, rfl⟩
    rcases exists_spells_of_moreMembers hitem hmore
      fun m hm => hms m (List.mem_cons_of_mem _ hm) with ⟨parts, hparts, rfl, rfl⟩
    exact ⟨(key, front, d) :: parts, List.forall_mem_cons.2 ⟨hfront, hparts⟩, rfl,
      by simp [commaSeparated, memberTokens]⟩

/-- What is read without a fault has been spelled. -/
theorem leavesSpelled_read (n : Nat) : LeavesSpelled n (Draft.read n) := by
  -- The parts of an array or object are read with one level less.
  induction n using Nat.strongRecOn with
  | ind n ih =>
      intro ts d rest h hd
      unfold Draft.read at h
      split at h
      case h_1 s ts =>
        cases h
        exact ⟨_, .scalar n s, rfl⟩
      case h_2 t ts =>
        cases h
        exact ⟨_, .string n t, rfl⟩
      case h_7 k ts =>
        rcases hread : readItems (Draft.read k) ts with ⟨⟨items, stop⟩, ts'⟩
        simp only [hread] at h
        cases h
        rcases hd.of_items with ⟨rfl, hitems⟩
        rcases exists_spells_of_readItems (ih k (Nat.lt_succ_self k)) hread hitems with
          ⟨parts, hparts, rfl, rfl⟩
        exact ⟨_, .array hparts, by simp⟩
      case h_8 k ts =>
        rcases hread : readMembers (Draft.read k) ts with ⟨⟨ms, stop⟩, ts'⟩
        simp only [hread] at h
        cases h
        rcases hd.of_members with ⟨rfl, hms⟩
        rcases exists_spells_of_readMembers (ih k (Nat.lt_succ_self k)) hread hms with
          ⟨parts, hparts, rfl, rfl⟩
        exact ⟨_, .object hparts, by simp⟩
      case h_3 | h_4 | h_5 | h_6 | h_9 | h_10 =>
        cases h
        exact (not_isSound_fault _ hd).elim

/-! ## The tokens of a draft -/

theorem isSound_commaSeparated {tss : List (List Token)}
    (h : ∀ ts ∈ tss, ∀ tok ∈ ts, tok.isSound = true) :
    ∀ tok ∈ commaSeparated tss, tok.isSound = true := by
  cases tss with
  | nil => simp [commaSeparated]
  | cons ts tss =>
      rw [List.forall_mem_cons] at h
      simp only [commaSeparated, List.forall_mem_append, List.mem_flatMap]
      refine ⟨h.1, ?_⟩
      rintro tok ⟨ts, hts, htok⟩
      rcases List.mem_cons.1 htok with rfl | htok
      · rfl
      · exact h.2 ts hts tok htok

/-- What spells a draft can be read. -/
theorem Spells.isSound (h : Spells n ts d) : ∀ tok ∈ ts, tok.isSound = true := by
  induction h with
  | scalar | string => simp [Token.isSound]
  | @array n parts h ih =>
      have hparts : ∀ ts ∈ parts.map fun p => p.1, ∀ tok ∈ ts, tok.isSound = true :=
        List.forall_mem_map.2 ih
      simp only [List.forall_mem_cons, List.forall_mem_append]
      exact ⟨rfl, isSound_commaSeparated hparts, rfl, by simp⟩
  | @object n parts h ih =>
      have hmembers : ∀ ts ∈ parts.map fun p => memberTokens p.1 p.2.1, ∀ tok ∈ ts,
          tok.isSound = true := by
        refine List.forall_mem_map.2 fun p hp => ?_
        simp only [memberTokens, List.forall_mem_cons]
        exact ⟨rfl, rfl, ih p hp⟩
      simp only [List.forall_mem_cons, List.forall_mem_append]
      exact ⟨rfl, isSound_commaSeparated hmembers, rfl, by simp⟩

/-! ## The parts of a draft -/

theorem Spells.of_array {ds : List Draft} {stop : Option Fault}
    (h : Spells n ts (.array ds stop)) :
    ∃ k, ∃ parts : List (List Token × Draft), n = k + 1 ∧ stop = none ∧
      (∀ p ∈ parts, Spells k p.1 p.2) ∧ ds = parts.map (fun p => p.2) := by
  cases h with
  | array h => exact ⟨_, _, rfl, rfl, h, rfl⟩

theorem Spells.of_object {ms : List (Text × Draft)} {stop : Option Fault}
    (h : Spells n ts (.object ms stop)) :
    ∃ k, ∃ parts : List (Text × List Token × Draft), n = k + 1 ∧ stop = none ∧
      (∀ p ∈ parts, Spells k p.2.1 p.2.2) ∧ ms = parts.map (fun p => (p.1, p.2.2)) ∧
      ts = .openBrace ::
        (commaSeparated (parts.map fun p => memberTokens p.1 p.2.1) ++ [.closeBrace]) := by
  cases h with
  | object h => exact ⟨_, _, rfl, rfl, h, rfl, rfl⟩

theorem Spells.of_openBrace (h : Spells n (.openBrace :: ts) d) :
    ∃ k, ∃ parts : List (Text × List Token × Draft), n = k + 1 ∧
      (∀ p ∈ parts, Spells k p.2.1 p.2.2) ∧ d = .object (parts.map fun p => (p.1, p.2.2)) none ∧
      ts = commaSeparated (parts.map fun p => memberTokens p.1 p.2.1) ++ [.closeBrace] := by
  generalize hall : Token.openBrace :: ts = all at h
  cases h with
  | object h => exact ⟨_, _, rfl, h, rfl, (List.cons.inj hall).2⟩
  | scalar | string | array => cases hall

/-- How deep arrays and objects stand in one another is up to the draft. -/
theorem Spells.of_draft {ts' : List Token} (h : Spells m ts' d) (hd : Spells n ts d) :
    Spells n ts' d := by
  induction h generalizing n ts with
  | scalar m s => exact .scalar n s
  | string m t => exact .string n t
  | @array m parts h ih =>
      rcases hd.of_array with ⟨k, parts', rfl, -, hparts, hsame⟩
      refine .array fun p hp => ?_
      have hp' : p.2 ∈ parts.map fun p => p.2 := List.mem_map_of_mem hp
      rw [hsame] at hp'
      rcases List.mem_map.1 hp' with ⟨q, hq, hqp⟩
      exact ih p hp (hqp ▸ hparts q hq)
  | @object m parts h ih =>
      rcases hd.of_object with ⟨k, parts', rfl, -, hparts, hsame, -⟩
      refine .object fun p hp => ?_
      have hp' : (p.1, p.2.2) ∈ parts.map fun p => (p.1, p.2.2) :=
        List.mem_map_of_mem (f := fun p => (p.1, p.2.2)) hp
      rw [hsame] at hp'
      rcases List.mem_map.1 hp' with ⟨q, hq, hqp⟩
      exact ih p hp ((Prod.mk.inj hqp).2 ▸ hparts q hq)

theorem Spells.mono (h : Spells n ts d) (hn : n ≤ m) : Spells m ts d := by
  induction h generalizing m with
  | scalar n s => exact .scalar m s
  | string n t => exact .string m t
  | array h ih =>
      obtain ⟨m, rfl⟩ : ∃ k, m = k + 1 := ⟨m - 1, by omega⟩
      exact .array fun p hp => ih p hp (by omega)
  | object h ih =>
      obtain ⟨m, rfl⟩ : ∃ k, m = k + 1 := ⟨m - 1, by omega⟩
      exact .object fun p hp => ih p hp (by omega)

/-- The same tokens spell one draft, and nothing can stand behind it. -/
theorem Spells.unique {d' : Draft} {ts' : List Token} (h : Spells n ts d)
    (h' : Spells m (ts ++ ts') d') : d = d' ∧ ts' = [] := by
  -- Both are read from the same tokens with the greater of the two depths.
  have hread := (h.mono (Nat.le_max_left n m)).read ts'
  have hread' := (h'.mono (Nat.le_max_right n m)).read []
  rw [List.append_nil, hread] at hread'
  exact Prod.mk.inj hread'

theorem ofText_of_spells {t : Text} (h : Spells maxDepth (Token.readAll t) d) :
    ofText t = (d, false) := by
  have hread := h.read []
  rw [List.append_nil] at hread
  simp [ofText, hread]

theorem Spells.eq_of_ofText {t : Text} {d' : Draft} {hasMore : Bool}
    (h : Spells maxDepth (Token.readAll t) d) (h' : ofText t = (d', hasMore)) : d = d' :=
  (Prod.mk.inj ((ofText_of_spells h).symm.trans h')).1

end Draft

/-! ## Objects written down -/

/-- The object with some members, as a text. -/
def objectText (members : List Text) : Text := "\x7b" ++ Text.joinWith "," members ++ "\x7d"

theorem readAll_objectText {members : List Text}
    (h : ∀ m ∈ members, ∀ tok ∈ Token.readAll m, tok.isSound = true) :
    Token.readAll (objectText members) =
      .openBrace :: (commaSeparated (members.map Token.readAll) ++ [.closeBrace]) := by
  suffices hmembers : Token.readAll (Text.joinWith "," members ++ "\x7d".toList) =
      commaSeparated (members.map Token.readAll) ++ [.closeBrace] by
    rw [objectText, List.append_assoc, ← hmembers]
    exact Token.readAll_cons rfl
  have hclose : Follows [] ['\x7d'] := by simp [Follows, isNumberPart]
  have hcomma : ∀ more, Follows [] (',' :: more) := by simp [Follows, isNumberPart]
  induction members with
  | nil => rfl
  | cons m members ih =>
      by_cases hmembers : members = []
      · subst hmembers
        simp only [Text.joinWith, List.map_cons, List.map_nil, commaSeparated,
          List.flatMap_nil, List.append_nil]
        exact Token.readAll_append (h m (by simp)) hclose
      · have hmore := ih fun m' hm' => h m' (List.mem_cons_of_mem m hm')
        rw [Text.joinWith_cons hmembers, List.map_cons,
          commaSeparated_cons (by simpa using hmembers), List.append_assoc, List.append_assoc,
          List.append_assoc]
        calc Token.readAll (m ++ (','  :: (Text.joinWith "," members ++ "\x7d".toList)))
            = Token.readAll m ++
                Token.readAll (',' :: (Text.joinWith "," members ++ "\x7d".toList)) :=
              Token.readAll_append (h m (by simp)) (hcomma _)
          _ = Token.readAll m ++ .comma ::
                Token.readAll (Text.joinWith "," members ++ "\x7d".toList) :=
              congrArg _ (Token.readAll_cons rfl)
          _ = _ := by rw [hmore]; rfl

namespace Value

open Draft (Spells maxDepth)

variable {t : Text} {v : Value}

/-- A text has a value if its tokens spell a draft that has it. -/
theorem ofText_eq_ok_iff :
    ofText t = .ok v ↔ ∃ d, Spells maxDepth (Token.readAll t) d ∧ ofDraft d = .ok v := by
  constructor
  · intro h
    rcases hread : Draft.read maxDepth (Token.readAll t) with ⟨d, rest⟩
    simp only [ofText, Draft.ofText, hread] at h
    cases hd : ofDraft d with
    | error f => simp [hd, bind, Except.bind] at h
    | ok v' =>
        cases rest with
        | cons tok rest => simp [hd, bind, Except.bind] at h
        | nil =>
            obtain rfl : v' = v := by simpa [hd, bind, Except.bind] using h
            rcases Draft.leavesSpelled_read maxDepth hread ⟨v', hd⟩ with ⟨front, hfront, hall⟩
            rw [List.append_nil] at hall
            exact ⟨d, hall ▸ hfront, hd⟩
  · rintro ⟨d, hspells, hv⟩
    simp [ofText, Draft.ofText_of_spells hspells, hv, bind, Except.bind]

end Value

end Json

end ProcedureGen
