import ProcedureGen.Proofs.Script.Guided

/-!
# Texts with like tokens

A list of statements is read off every text that has like tokens up to its closing brace.

* `Outlook.Runs`: tokens that are taken one by one, each as the outlook asks for it;
* `Outlook.Paired`: two places from which like tokens lead to closing braces;
* `guided_runs`, `guided_paired`: both kinds of pairs guide;
* `Echo`: tokens that are like those of another text;
* `Grammar.read_items_echo`: the statements of a text are read off such a text as well.
-/

namespace ProcedureGen
namespace Script

open Phrase Grammar

variable {o o' o'' : Outlook} {x x' y y' z z' : Text} {t t' : Token} {goals more : List Goal}
  {ts us : List Token}

/-- A cursor stands at one place of a text. -/
theorem Cursor.ofText_injective (h : Cursor.ofText x = .ofText y) : x = y := by
  have hscan : Token.scan y = ((Token.scan x).1, (Token.scan x).2) :=
    Prod.ext (congrArg Cursor.token h.symm) (congrArg Cursor.rest h.symm)
  exact (Token.scan_split rfl).trans (Token.scan_split hscan).symm

/-! ## Runs -/

namespace Outlook

/-- The outlook at the start of a list of statements. -/
def inBlock : Outlook := ⟨⟨.statement, .statements, false⟩, []⟩

/-- Tokens that are taken one by one, each as the outlook asks for it. -/
inductive Runs : Outlook → Text → List Goal → List Token → Outlook → Text → Prop where
  | nil (o : Outlook) (x : Text) : Runs o x [] [] o x
  | cons {o o' o'' : Outlook} {x y z : Text} {t : Token} {goals : List Goal} {ts : List Token}
      (scan : o.scan x = some (t, y)) (advance : o.advance t = some o')
      (behind : Runs o' y goals ts o'' z) :
      Runs o x (o.frame.goal (Token.scan x).1 :: goals) (t :: ts) o'' z

namespace Runs

theorem leads (h : Runs o x goals ts o' y) : Leads goals x ts y := by
  induction h with
  | nil o x => exact .nil x
  | cons scan _ _ ih => exact .cons scan ih

/-- A run goes on by one token. -/
theorem concat (h : Runs o x goals ts o' y) (hscan : o'.scan y = some (t, z))
    (hadvance : o'.advance t = some o'') :
    ∃ goals ts, Runs o x goals ts o'' z := by
  induction h with
  | nil o x => exact ⟨_, _, .cons hscan hadvance (.nil o'' z)⟩
  | cons scan advance _ ih =>
      rcases ih hscan hadvance with ⟨goals, ts, hruns⟩
      exact ⟨_, _, .cons scan advance hruns⟩

end Runs
end Outlook

open Outlook (Runs)

/-- The places that a run reaches guide, each paired with itself. -/
theorem guided_runs (start : Outlook) (front : Text) :
    Guided fun o x x' => x' = x ∧ ∃ goals ts, Runs start front goals ts o x where
  kind := by
    rintro o x x' ⟨rfl, -⟩
    rfl
  stuck := by
    rintro o x x' ⟨rfl, -⟩ hscan
    exact hscan
  scan := by
    rintro o x x' t y ⟨rfl, goals, ts, hruns⟩ hscan
    exact ⟨t, y, hscan, rfl, fun o' hadvance => ⟨⟨rfl, hruns.concat hscan hadvance⟩, .inl rfl⟩⟩

/-- What the statements in front of a closing brace are forecast to lead to. -/
theorem forecast_items : (many (.rule .item)).forecast Rule.forecast ⟨.inBlock, .nothing⟩ =
    some [⟨.inBlock, .nothing⟩] := by
  decide +kernel

/-- Behind a list of statements one stands where the list began, among the brackets. -/
def Outlook.EndsBlock (o : Outlook) : Prop := o.frame.region = .statements ∧ o.around = []

namespace Grammar

variable {bound depth : Nat} {items : Tree} {c : Cursor} {S : Outlook → Text → Text → Prop}

/-- What is read of statements in two texts is alike. -/
theorem read_items_guided (hS : Guided S) (h : S .inBlock x x')
    (hread : (many (.rule .item)).read .plain bound ((grammar .plain).read .plain depth)
      (.ofText x) = some (items, c)) :
    ∃ items' y y' o, c = .ofText y ∧
      (many (.rule .item)).read .plain bound ((grammar .plain).read .plain depth)
        (.ofText x') = some (items', .ofText y') ∧
      items'.map Token.essence = items.map Token.essence ∧ S o y y' ∧ o.EndsBlock := by
  have hstart : Stands S [] ⟨.inBlock, .nothing⟩ x x' :=
    ⟨⟨.inBlock, h, .refl _ x⟩, .inr rfl, Clear.allows_nothing _ _⟩
  have houtcome : Outcome S [] [⟨.inBlock, .nothing⟩]
      ((many (.rule .item)).read .plain bound ((grammar .plain).read .plain depth) (.ofText x))
      ((many (.rule .item)).read .plain bound ((grammar .plain).read .plain depth) (.ofText x')) :=
    Phrase.read_guided hS (Grammar.read_guided hS depth)
      (fun r hr => Grammar.read_shuns depth hr) (many (.rule .item)) forecast_items hstart
  rw [hread] at houtcome
  generalize (many (.rule .item)).read .plain bound _ (.ofText x') = r at houtcome
  generalize hr : some (items, c) = r' at houtcome
  cases houtcome with
  | neither => cases hr
  | both mem stands same =>
      rcases Prod.mk.inj (Option.some.inj hr) with ⟨rfl, rfl⟩
      obtain rfl := List.mem_singleton.1 mem
      rcases stands.supported with ⟨o, ho, hsupports⟩
      exact ⟨_, _, _, o, rfl, rfl, same, ho, hsupports.region_eq, hsupports.around_eq⟩
  | first mem near =>
      obtain rfl := List.mem_singleton.1 mem
      cases near

/-- The tokens of statements are those of a run. -/
theorem runs_of_read_items
    (hread : (many (.rule .item)).read .plain bound ((grammar .plain).read .plain depth)
      (.ofText x) = some (items, c)) :
    ∃ goals ts o y, c = .ofText y ∧ Runs .inBlock x goals ts o y ∧ o.EndsBlock := by
  rcases read_items_guided (guided_runs .inBlock x) ⟨rfl, [], [], .nil _ x⟩ hread with
    ⟨_, y, y', o, rfl, -, -, ⟨-, goals, ts, hruns⟩, hends⟩
  exact ⟨goals, ts, o, y, rfl, hruns, hends⟩

end Grammar

/-! ## Pairs -/

/-- Where a list of statements ends, no closing brace is taken. -/
theorem Outlook.EndsBlock.advance_eq_none (h : o.EndsBlock)
    (hkind : t.kind = .punctuator .braceClose) : o.advance t = none := by
  -- Such a frame refuses the brace or lets it close a block, and around this frame there is none.
  have hafter : ∀ e declares onNewLine,
      Frame.after ⟨e, .statements, declares⟩ .braceClose onNewLine = none ∨
        Frame.after ⟨e, .statements, declares⟩ .braceClose onNewLine = some .leave := by
    intro e declares onNewLine
    cases e <;> cases onNewLine <;> first | exact .inl rfl | exact .inr rfl
  rcases o with ⟨⟨e, region, declares⟩, around⟩
  rcases h with ⟨rfl, rfl⟩
  rw [advance, hkind, after]
  rcases hafter e declares t.onNewLine with hnone | hleave
  · exact Option.bind_eq_none_iff.2 fun m hm => absurd (hnone.symm.trans hm) (by simp)
  · exact (congrArg (Option.bind · (move [])) hleave).trans rfl

/-- A closing brace stands next. -/
def Closes (x : Text) : Prop := (Token.scan x).1.kind = .punctuator .braceClose

/-- It is scanned without a goal. -/
theorem Closes.scan_eq (h : Closes x) :
    Goal.scan .plain x = some ((Token.scan x).1, (Token.scan x).2) := by
  refine Goal.scan_plain.2 ⟨rfl, ?_⟩
  rw [h]
  simp

/-- Behind the gap stands the brace. -/
theorem Closes.split (h : Closes x) :
    x = (Token.scan x).1.gap ++ '\x7d' :: (Token.scan x).2 ∧ (Token.scan x).1.raw = ['\x7d'] ∧
      Gap.pass .blank (Token.scan x).1.gap = some .blank := by
  have hraw : (Token.scan x).1.raw = ['\x7d'] := Goal.scan_mark_raw h.scan_eq h
  have hsettled := Goal.scan_settled h.scan_eq
  refine ⟨?_, hraw, hsettled.gap⟩
  have hsplit := hsettled.split
  rwa [hraw] at hsplit

/-- Where a list of statements ends, a closing brace is scanned without a goal. -/
theorem Outlook.EndsBlock.scan_eq (h : o.EndsBlock) (hx : Closes x) :
    o.frame.goal (Token.scan x).1 = .plain ∧ o.scan x = some (Token.scan x) := by
  have hgoal : o.frame.goal (Token.scan x).1 = .plain := by
    apply Frame.goal_plain
    rw [hx]
    simp [Kind.role, Punctuator.role, Frame.suits, h.1]
  exact ⟨hgoal, (congrArg (Goal.scan · x) hgoal).trans hx.scan_eq⟩

/-- Two places from which like tokens lead to closing braces, to that of `stop` in the second
text. -/
inductive Outlook.Paired (stop : Text) : Outlook → Text → Text → Prop where
  | last {o : Outlook} {x : Text} (ends : o.EndsBlock) (closes : Closes x)
      (closes' : Closes stop) : Paired stop o x stop
  | step {o o' : Outlook} {x x' y y' : Text} {t t' : Token}
      (kind : (Token.scan x').1.kind = (Token.scan x).1.kind)
      (scan : o.scan x = some (t, y))
      (scan' : (o.frame.goal (Token.scan x).1).scan x' = some (t', y'))
      (same : t'.essence = t.essence) (advance : o.advance t = some o') (line : OnLine y y')
      (behind : Paired stop o' y y') : Paired stop o x x'

open Outlook (Paired)

theorem guided_paired (stop : Text) : Guided (Paired stop) where
  kind := by
    intro o x x' h
    cases h with
    | last _ closes closes' => exact closes'.trans closes.symm
    | step kind => exact kind
  stuck := by
    intro o x x' h hscan
    cases h with
    | last ends closes => exact absurd (hscan.symm.trans (ends.scan_eq closes).2) (by simp)
    | step _ scan => exact absurd (hscan.symm.trans scan) (by simp)
  scan := by
    intro o x x' t y h hscan
    cases h with
    | last ends closes closes' =>
        rcases ends.scan_eq closes with ⟨hgoal, hscan'⟩
        have ht : t = (Token.scan x).1 :=
          (Prod.mk.inj (Option.some.inj (hscan.symm.trans hscan'))).1
        refine ⟨_, _, hgoal ▸ closes'.scan_eq, ?_, fun o' hadvance => ?_⟩
        · rw [ht]
          exact Token.essence_eq (closes'.trans closes.symm)
            (.inl (closes'.split.2.1.trans closes.split.2.1.symm))
        · rw [ends.advance_eq_none (ht ▸ closes)] at hadvance
          cases hadvance
    | step kind scan scan' same advance line behind =>
        rcases Prod.mk.inj (Option.some.inj (hscan.symm.trans scan)) with ⟨rfl, rfl⟩
        refine ⟨_, _, scan', same, fun o' hadvance => ?_⟩
        obtain rfl := Option.some.inj (hadvance.symm.trans advance)
        exact ⟨behind, line⟩

/-- Where the first text has its closing brace, so has the second one. -/
theorem Outlook.Paired.eq_stop {stop : Text} (h : Paired stop o x x') (hends : o.EndsBlock)
    (hx : Closes x) : x' = stop := by
  cases h with
  | last => rfl
  | step _ scan _ _ advance =>
      rcases Prod.mk.inj (Option.some.inj (scan.symm.trans (hends.scan_eq hx).2)) with ⟨rfl, -⟩
      exact absurd (advance.symm.trans (hends.advance_eq_none hx)) (by simp)

/-! ## Like tokens -/

/-- No outlook asks for a part of a mark. -/
theorem Frame.goal_ne_part (f : Frame) (t : Token) (p : Punctuator) : f.goal t ≠ .part p := by
  unfold goal
  split
  case h_1 | h_2 | h_3 => split <;> simp
  · simp

/-- Tokens that are alike begin alike. -/
theorem Goal.kind_of_essence {goal : Goal} (hgoal : ∀ p, goal ≠ .part p)
    (h : goal.scan x = some (t, y)) (h' : goal.scan x' = some (t', y'))
    (same : t'.essence = t.essence) : (Token.scan x').1.kind = (Token.scan x).1.kind := by
  cases goal with
  | plain => rw [(scan_plain.1 h).1, (scan_plain.1 h').1, Token.kind_eq_of_essence same]
  | regex =>
      have hinside : ∀ {z : Text} {u : Token} {w : Text}, scan .regex z = some (u, w) →
          u.essence.raw = u.raw := by
        intro z u w hscan
        refine if_neg fun hfeed => ?_
        have hmem : '\n' ∈ u.raw :=
          List.mem_of_mem_drop ((List.dropLast_sublist _).subset hfeed)
        exact absurd (inline_of_scan_regex hscan _ hmem) (by decide)
      have hraw : t'.raw = t.raw := by
        rw [← hinside h', same, hinside h]
      rw [kind_of_scan_regex h, kind_of_scan_regex h', hraw]
  | templateRest => rw [(scan_templateRest_inv h).1, (scan_templateRest_inv h').1]
  | part p => exact absurd rfl (hgoal p)

/-- Tokens of a text that are like some other tokens and lead to a closing brace.  They begin lines
where the others do, but for the first one, and the brace begins one. -/
structure Echo (goals : List Goal) (ts us : List Token) (x y : Text) : Prop where
  leads : Leads goals x us y
  essence : us.map Token.essence = ts.map Token.essence
  onNewLine : us.tail.map Token.onNewLine = ts.tail.map Token.onNewLine
  closes : Closes y
  closesOnNewLine : (Token.scan y).1.onNewLine = true

/-- In front of the text may stand a line feed. -/
theorem Echo.behindFeed (h : Echo goals ts us x y) :
    ∃ us' y', Echo goals ts us' ('\n' :: x) y' ∧ (Token.scan y').2 = (Token.scan y).2 := by
  have hscan : ∀ {goal : Goal} {x y : Text} {t : Token}, goal.scan x = some (t, y) →
      goal.scan ('\n' :: x) = some (⟨t.kind, '\n' :: t.gap, t.raw, true⟩, y) := by
    intro goal x y t hscan
    have hsettled := Goal.scan_settled hscan
    have hpass : Gap.pass .blank ('\n' :: t.gap) = some .blank :=
      (Gap.pass_spaces (w := ['\n']) (by simp; decide) t.gap).1.trans hsettled.gap
    have hagain := hsettled.again _ _ _ hpass (.refl t.raw) (.refl y)
    rw [hsettled.split]
    exact hagain
  rcases h with ⟨hleads, hsame, hline, hcloses, hnew⟩
  cases hleads with
  | nil =>
      have hfeed := (Goal.scan_plain.1 (hscan hcloses.scan_eq)).1
      exact ⟨[], _, ⟨.nil _, hsame, hline, by rw [Closes, hfeed]; exact hcloses, by rw [hfeed]⟩,
        by rw [hfeed]⟩
  | cons hfirst hmore =>
      exact ⟨_, y, ⟨.cons (hscan hfirst) hmore, hsame, hline, hcloses, hnew⟩, rfl⟩

/-- Where all of them begin lines alike, the places in front of them are on lines alike. -/
theorem Echo.onLine (h : Echo goals ts us x' y') (hleads : Leads more x ts y) (hy : Closes y)
    (hline : us.map Token.onNewLine = ts.map Token.onNewLine) : OnLine x x' := by
  rcases h with ⟨hleads', -, -, -, hnew⟩
  cases hleads with
  | nil =>
      cases hleads' with
      | nil => exact .inr ⟨hy, hnew⟩
      | cons => cases hline
  | cons hscan =>
      cases hleads' with
      | nil => cases hline
      | cons hscan' =>
          refine .inl ?_
          rw [← Goal.onNewLine_of_scan hscan, ← Goal.onNewLine_of_scan hscan']
          exact (List.cons.inj hline).1

/-- A run goes along with like tokens in another text. -/
theorem Outlook.Runs.paired (h : Runs o x goals ts o' y) (hends : o'.EndsBlock) (hy : Closes y)
    (hecho : Echo goals ts us x' y') : Paired y' o x x' := by
  -- Each step of the run takes one token off the others.
  induction h generalizing x' us with
  | nil o x =>
      cases hecho.leads with
      | nil => exact .last hends hy hecho.closes
  | cons scan advance behind ih =>
      rcases hecho with ⟨hleads, hsame, hline, hcloses, hnew⟩
      cases hleads with
      | cons scan' leads' =>
          rcases List.cons.inj hsame with ⟨hfirst, hmore⟩
          have htail := congrArg List.tail hline
          rw [← List.map_tail, ← List.map_tail] at htail
          have hbehind : Echo _ _ _ _ y' := ⟨leads', hmore, htail, hcloses, hnew⟩
          exact .step (Goal.kind_of_essence (Frame.goal_ne_part _ _) scan scan' hfirst) scan scan'
            hfirst advance (hbehind.onLine behind.leads hy hline) (ih hends hy hbehind)

/-- The statements of a text are read off a text with like tokens as well. -/
theorem Grammar.read_items_echo {bound depth : Nat} {items : Tree} {P : Text → Prop}
    (hread : (many (.rule .item)).read .plain bound ((grammar .plain).read .plain depth)
      (.ofText x) = some (items, .ofText y)) (hy : Closes y)
    (h : ∀ goals ts, Leads goals x ts y → ∃ us y', Echo goals ts us x' y' ∧ P y') :
    ∃ items' y', (many (.rule .item)).read .plain bound ((grammar .plain).read .plain depth)
        (.ofText x') = some (items', .ofText y') ∧
      items'.map Token.essence = items.map Token.essence ∧ Closes y' ∧ P y' := by
  -- The tokens in the first text are known before those in the second one are compared with them.
  rcases runs_of_read_items hread with ⟨goals, ts, o, y₀, hy₀, hruns, hends⟩
  obtain rfl := Cursor.ofText_injective hy₀
  rcases h goals ts hruns.leads with ⟨us, y', hecho, hP⟩
  rcases read_items_guided (guided_paired y') (hruns.paired hends hy hecho) hread with
    ⟨items', y₁, y₂, o', hy₁, hread', hsame', hpaired', hends'⟩
  obtain rfl := Cursor.ofText_injective hy₁
  obtain rfl := hpaired'.eq_stop hends' hy
  exact ⟨items', y₂, hread', hsame', hecho.closes, hP⟩

end Script
end ProcedureGen
