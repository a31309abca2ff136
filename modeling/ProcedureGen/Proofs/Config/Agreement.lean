import ProcedureGen.Proofs.Config.Precedence
import ProcedureGen.Proofs.Config.Reading
import ProcedureGen.Proofs.Json.Draft

/-!
# One configuration in two places

A configuration is the same in a file of its own and in a package manifest, unless it names a member
twice: the former refuses that, for the latter the last one counts.

* `Config.asMember`: a text as the configuration of a manifest;
* `Config.HasRepeatedKey`, `Config.KeepsLast`: texts that name a member twice, and texts with the
  last of such members only;
* `Config.exists_keepsLast`: there is such a text, put together from parts of the first;
* `Store.load_agreement`: what is loaded in the two places.
-/

namespace ProcedureGen

namespace Config

open Json (Draft Token Value)
open Json.Draft (Spells)
open Json.Value (keepLast)

variable {t t' : Text} {d : Draft} {v w : Value} {c : Config} {ts : List Token}
  {ms : List (Text × Draft)}

/-! ## A text in a manifest -/

/-- A manifest with a configuration, and nothing else. -/
def asMember (t : Text) : Text := "\x7b\"plv8gen\": " ++ t ++ "\x7d"

theorem readAll_asMember (h : ∀ tok ∈ Token.readAll t, tok.isSound = true) :
    Token.readAll (asMember t) =
      .openBrace :: .string manifestKey :: .colon :: (Token.readAll t ++ [.closeBrace]) := by
  have hclose : Json.Follows [] ['\x7d'] := by simp [Json.Follows, Json.isNumberPart]
  calc Token.readAll (asMember t)
      = .openBrace :: Token.readAll ("\"plv8gen\": ".toList ++ t ++ "\x7d".toList) :=
        Token.readAll_cons rfl
    _ = .openBrace :: .string manifestKey :: Token.readAll (": ".toList ++ t ++ "\x7d".toList) :=
        congrArg _ (Token.readAll_cons rfl)
    _ = .openBrace :: .string manifestKey :: .colon :: Token.readAll (' ' :: (t ++ ['\x7d'])) :=
        congrArg _ (congrArg _ (Token.readAll_cons rfl))
    _ = .openBrace :: .string manifestKey :: .colon ::
          (Token.readAll t ++ Token.readAll ['\x7d']) := by
        rw [Token.readAll_blank rfl, Token.readAll_append h hclose]

/-- A manifest has a value if the configuration in it has one and is not too deep. -/
theorem spells_of_asMember (h : Spells Draft.maxDepth (Token.readAll t) d)
    (hw : Value.ofText (asMember t) = .ok w) : Spells (Draft.maxDepth - 1) (Token.readAll t) d := by
  rcases Value.ofText_eq_ok_iff.1 hw with ⟨d', hspells, -⟩
  rw [readAll_asMember h.isSound] at hspells
  rcases hspells.of_openBrace with ⟨n, parts, hn, hparts, -, hall⟩
  obtain rfl : Draft.maxDepth - 1 = n := by omega
  -- The tokens of the first value begin those of the text, so that they are all of them.
  cases parts with
  | nil => simp [Json.commaSeparated] at hall
  | cons p parts =>
      have hp := hparts p (by simp)
      simp only [List.map_cons, Json.commaSeparated, Json.memberTokens, List.cons_append,
        List.cons.injEq, List.append_left_inj, true_and] at hall
      rw [hall.2] at h ⊢
      rcases hp.unique h with ⟨rfl, hrest⟩
      rwa [hrest, List.append_nil]

theorem ofText_asMember (h : Spells (Draft.maxDepth - 1) (Token.readAll t) d)
    (hv : Value.ofDraft d = .ok v) :
    Value.ofText (asMember t) = .ok (.object [(manifestKey, v)]) := by
  have hparts : ∀ p ∈ [(manifestKey, Token.readAll t, d)],
      Spells (Draft.maxDepth - 1) p.2.1 p.2.2 := by simpa using h
  refine Value.ofText_eq_ok_iff.2 ⟨.object [(manifestKey, d)] none, ?_, ?_⟩
  · have hspells := Spells.object hparts
    simp only [List.map_cons, List.map_nil, Json.commaSeparated, Json.memberTokens,
      List.flatMap_nil, List.append_nil, List.cons_append] at hspells
    rw [readAll_asMember h.isSound]
    exact hspells
  · exact Value.ofDraft_object_eq_ok_iff.2
      ⟨rfl, [(manifestKey, v)], .cons ⟨rfl, hv⟩ .nil, rfl⟩

theorem get?_manifestKey (v : Value) :
    (Value.object [(manifestKey, v)]).get? manifestKey = some v := by
  simp [Value.get?]

/-- A manifest with a configuration gives what is read from the value. -/
theorem ofManifest_asMember_eq_ok_iff {p : Path} {found : Option LoadedConfig}
    (h : Value.ofText (asMember t) = .ok (.object [(manifestKey, v)])) :
    ofManifest p (asMember t) = .ok found ↔
      ∃ c s, ofValue v = .ok c ∧ c.resolve = .ok s ∧
        found = some ⟨c, p, { s with origin := some p }⟩ := by
  rw [ofManifest_eq_ok_iff]
  simp only [h, Except.ok.injEq, exists_eq_left', get?_manifestKey, reduceCtorEq, false_and,
    false_or, Option.some.injEq, exists_and_left]

/-! ## Repeated keys -/

/-- The keys of an object as they stand in the text. -/
def keys : Draft → List Text
  | .object ms _ => ms.map Prod.fst
  | _ => []

/-- A text is an object in which some key stands twice. -/
def HasRepeatedKey (t : Text) : Prop := ¬ (keys (Draft.ofText t).1).Nodup

instance (t : Text) : Decidable (HasRepeatedKey t) := inferInstanceAs (Decidable (¬ _))

/-- A text is an object with the last member of each key of another one. -/
def KeepsLast (t t' : Text) : Prop :=
  ∃ ms, Draft.ofText t = (.object ms none, false) ∧
    Draft.ofText t' = (.object (keepLast ms) none, false)

theorem exists_object_of_hasRepeatedKey (h : Spells Draft.maxDepth (Token.readAll t) d)
    (hkeys : HasRepeatedKey t) : ∃ ms, d = .object ms none ∧ ¬ (ms.map Prod.fst).Nodup := by
  rw [HasRepeatedKey, Draft.ofText_of_spells h] at hkeys
  cases d with
  | fault | scalar | array => exact absurd List.nodup_nil hkeys
  | object ms stop =>
      rcases h.of_object with ⟨-, -, -, rfl, -⟩
      exact ⟨ms, rfl, hkeys⟩

/-- The last members of an object can be written down as they stand in its text. -/
theorem exists_keepsLast (h : Spells Draft.maxDepth (Token.readAll t) (.object ms none)) :
    ∃ t', KeepsLast t t' := by
  rcases h.of_object with ⟨n, parts, hn, -, hparts, rfl, hall⟩
  have hpart : ∀ p ∈ parts, Json.memberTokens p.1 p.2.1 <:+: Token.readAll t := by
    intro p hp
    have hmem := List.mem_map_of_mem (f := fun p => Json.memberTokens p.1 p.2.1) hp
    rw [hall]
    exact (Json.infix_commaSeparated hmem).trans
      ((List.prefix_append _ _).isInfix.trans (List.suffix_cons _ _).isInfix)
  have hwritten := fun p hp => Token.exists_readAll_eq (hpart p hp) h.isSound
  choose! member hmember using hwritten
  -- The members that are kept, with their tokens.
  have hkept : ∀ p ∈ keepLast parts, p ∈ parts := fun p => Value.mem_of_mem_keepLast
  have htokens : ((keepLast parts).map member).map Token.readAll =
      (keepLast parts).map fun p => Json.memberTokens p.1 p.2.1 := by
    rw [List.map_map]
    exact List.map_congr_left fun p hp => hmember p (hkept p hp)
  have hspells := Spells.object fun p hp => hparts p (hkept p hp)
  refine ⟨Json.objectText ((keepLast parts).map member), _, Draft.ofText_of_spells h,
    Draft.ofText_of_spells ?_⟩
  rw [Value.keepLast_map, hn, Json.readAll_objectText, htokens]
  · exact hspells
  · intro m hm tok htok
    rcases List.mem_map.1 hm with ⟨p, hp, rfl⟩
    rw [hmember p (hkept p hp)] at htok
    exact h.isSound tok ((hpart p (hkept p hp)).subset htok)

/-- The last members of an object are not deeper than all. -/
theorem exists_spells_keepLast {n : Nat} (h : Spells n ts (.object ms none)) :
    ∃ ts', Spells n ts' (.object (keepLast ms) none) := by
  rcases h.of_object with ⟨n, parts, rfl, -, hparts, rfl, -⟩
  rw [Value.keepLast_map]
  exact ⟨_, .object fun p hp => hparts p (Value.mem_of_mem_keepLast hp)⟩

/-- A text and the last members of its object are the same in a manifest. -/
theorem ofText_asMember_of_keepsLast (hkeeps : KeepsLast t t')
    (h : Spells (Draft.maxDepth - 1) (Token.readAll t) d) (hv : Value.ofDraft d = .ok v) :
    Value.ofText (asMember t') = .ok (.object [(manifestKey, v)]) := by
  rcases hkeeps with ⟨ms, ht, ht'⟩
  obtain rfl : d = .object ms none := (h.mono (Nat.sub_le _ 1)).eq_of_ofText ht
  rcases Value.ofDraft_object_eq_ok_iff.1 hv with ⟨-, vs, hvs, rfl⟩
  have hv' : Value.ofDraft (.object (keepLast ms) none) = .ok (Value.ofMembers vs) :=
    Value.ofDraft_object_eq_ok_iff.2
      ⟨rfl, keepLast vs, Value.stands_keepLast hvs, (Value.ofMembers_keepLast vs).symm⟩
  have hvalue : Value.ofText t' = .ok (Value.ofMembers vs) := by
    simp [Value.ofText, ht', hv', bind, Except.bind]
  rcases Value.ofText_eq_ok_iff.1 hvalue with ⟨d', hspells, -⟩
  obtain rfl : d' = .object (keepLast ms) none := hspells.eq_of_ofText ht'
  -- How deep the new text is follows from the draft, not from its tokens.
  rcases exists_spells_keepLast h with ⟨ts, hts⟩
  exact ofText_asMember (hspells.of_draft hts) hv'

/-! ## What is loaded -/

variable {p : Path} {source : ConfigSource}

theorem ofText_of_spells (h : Spells Draft.maxDepth (Token.readAll t) d) :
    ofText t = ofDraft (fun _ => .notJson .trailingCharacters) d := by
  simp only [ofText, Draft.ofText_of_spells h]
  cases ofDraft (fun _ => .notJson .trailingCharacters) d <;> simp [bind, Except.bind]

theorem exists_ofFile_iff :
    (∃ l, ofFile p t = .ok l ∧ l.config = c) ↔ ofText t = .ok c ∧ ∃ s, c.resolve = .ok s := by
  simp only [ofFile_eq_ok_iff]
  constructor
  · rintro ⟨l, ⟨c', s, hc, hs, rfl⟩, rfl⟩
    exact ⟨hc, s, hs⟩
  · rintro ⟨hc, s, hs⟩
    exact ⟨_, ⟨c, s, hc, hs, rfl⟩, rfl⟩

theorem exists_ofManifest_asMember_iff
    (h : Value.ofText (asMember t) = .ok (.object [(manifestKey, v)])) :
    (∃ l, ofManifest p (asMember t) = .ok (some l) ∧ l.config = c) ↔
      ofValue v = .ok c ∧ ∃ s, c.resolve = .ok s := by
  simp only [ofManifest_asMember_eq_ok_iff h]
  constructor
  · rintro ⟨l, ⟨c', s, hc, hs, hl⟩, rfl⟩
    cases hl
    exact ⟨hc, s, hs⟩
  · rintro ⟨hc, s, hs⟩
    exact ⟨_, ⟨c, s, hc, hs, rfl⟩, rfl⟩

/-- A text is refused if it does not come to a configuration. -/
theorem exists_ofFile_error_iff :
    (∃ e, ofFile p t = .error e) ↔ ∀ c, ¬ ∃ l, ofFile p t = .ok l ∧ l.config = c := by
  cases ofFile p t <;> simp

theorem exists_ofManifest_error_iff
    (h : Value.ofText (asMember t) = .ok (.object [(manifestKey, v)])) :
    (∃ e, ofManifest p (asMember t) = .error e) ↔
      ∀ c, ¬ ∃ l, ofManifest p (asMember t) = .ok (some l) ∧ l.config = c := by
  have hfound : ofManifest p (asMember t) ≠ .ok none := by
    simp [ofManifest_asMember_eq_ok_iff h]
  cases hread : ofManifest p (asMember t) with
  | error e => simp
  | ok found =>
      cases found with
      | none => exact absurd hread hfound
      | some l => simp

/-- A file of its own cannot name a member twice. -/
theorem ofText_ne_ok_of_repeated (h : Spells Draft.maxDepth (Token.readAll t) d)
    (hkeys : HasRepeatedKey t) : ofText t ≠ .ok c := by
  rcases exists_object_of_hasRepeatedKey h hkeys with ⟨ms, rfl, hrepeated⟩
  intro hc
  rw [ofText_of_spells h] at hc
  exact hrepeated (nodup_of_setMembers hc).1

/-- A text that names no member twice is the configuration that its value is. -/
theorem ofText_iff_ofValue (h : Spells Draft.maxDepth (Token.readAll t) d)
    (hv : Value.ofDraft d = .ok v) (hkeys : ¬ HasRepeatedKey t) :
    ofText t = .ok c ↔ ofValue v = .ok c := by
  rw [ofText_of_spells h]
  refine (ofValue_eq_ok_iff hv fun ms hms => ?_).symm
  rw [HasRepeatedKey, Draft.ofText_of_spells h, hms, not_not] at hkeys
  exact hkeys

end Config

namespace Store

open Json (Draft Value)

/-- A text that has a value, also in a manifest, and names no member twice is the same configuration
in a file of its own and in a manifest, or is refused in both.  A text that names a member twice is
refused in a file of its own; in a manifest it counts for what the last of such members say, which
can be written down as a text. -/
theorem load_agreement (s r : Store) (base p q : Path) (t : Text) (v w : Value)
    (hv : Value.ofText t = .ok v) (hw : Value.ofText (Config.asMember t) = .ok w)
    (hfile : s.read (Path.join base p) = .ok t) (hmanifest : r.read q = .ok (Config.asMember t)) :
    (¬ Config.HasRepeatedKey t →
      (∀ c, (∃ l, (s.run (Config.load base p)).1 = .ok l ∧ l.config = c) ↔
        ∃ l, (r.run (Config.loadManifest q)).1 = .ok (some l) ∧ l.config = c) ∧
      ((∃ e, (s.run (Config.load base p)).1 = .error e) ↔
        ∃ e, (r.run (Config.loadManifest q)).1 = .error e)) ∧
    (Config.HasRepeatedKey t →
      (∃ e, (s.run (Config.load base p)).1 = .error e) ∧ (∃ t', Config.KeepsLast t t') ∧
      ∀ (t' : Text) (r' : Store), Config.KeepsLast t t' →
        r'.read q = .ok (Config.asMember t') →
        (r.run (Config.loadManifest q)).1 = (r'.run (Config.loadManifest q)).1) := by
  rcases Value.ofText_eq_ok_iff.1 hv with ⟨d, hspells, hd⟩
  have hdeep := Config.spells_of_asMember hspells hw
  have hmember := Config.ofText_asMember hdeep hd
  have hload : (s.run (Config.load base p)).1 = Config.ofFile p t := by
    simp only [run_load, hfile]
  have hloadManifest : (r.run (Config.loadManifest q)).1 =
      Config.ofManifest q (Config.asMember t) := by
    simp only [run_loadManifest, hmanifest, Config.ofContent]
  rw [hload, hloadManifest]
  constructor
  · intro hkeys
    have hagree : ∀ c, (∃ l, Config.ofFile p t = .ok l ∧ l.config = c) ↔
        ∃ l, Config.ofManifest q (Config.asMember t) = .ok (some l) ∧ l.config = c := by
      intro c
      rw [Config.exists_ofFile_iff, Config.exists_ofManifest_asMember_iff hmember,
        Config.ofText_iff_ofValue hspells hd hkeys]
    refine ⟨hagree, ?_⟩
    rw [Config.exists_ofFile_error_iff, Config.exists_ofManifest_error_iff hmember]
    simp only [hagree]
  · intro hkeys
    refine ⟨?_, ?_, fun t' r' hkeeps hmanifest' => ?_⟩
    · rw [Config.exists_ofFile_error_iff]
      intro c hc
      exact Config.ofText_ne_ok_of_repeated hspells hkeys (Config.exists_ofFile_iff.1 hc).1
    · rcases Config.exists_object_of_hasRepeatedKey hspells hkeys with ⟨ms, rfl, -⟩
      exact Config.exists_keepsLast hspells
    · have hsame := Config.ofText_asMember_of_keepsLast hkeeps hdeep hd
      simp only [run_loadManifest, hmanifest', Config.ofContent, Config.ofManifest, hmember, hsame]

/-- A project with one configuration in two places. -/
def twofoldSample (t : Text) : Store := ⟨[(["p"], .directory),
  (["p", "plv8gen.config.json"], .file (Utf8.encode t)),
  (["p", "package.json"], .file (Utf8.encode (Config.asMember t)))]⟩

/-- A configuration that names a member twice. -/
def repeatingSample : Text := "\x7b\"drop\": true, \"root\": \"f\", \"drop\": false\x7d"

/-- What counts of it. -/
def lastSample : Text := "\x7b\"root\": \"f\", \"drop\": false\x7d"

theorem load_agreement_twofoldSample :
    (∃ l l', ((twofoldSample lastSample).run (Config.load "/p" "plv8gen.config.json")).1 = .ok l ∧
      ((twofoldSample lastSample).run (Config.loadManifest "/p/package.json")).1 = .ok (some l') ∧
      l.config = ⟨some "f", some false, none, [], []⟩ ∧ l'.config = l.config) ∧
    (∃ e, ((twofoldSample repeatingSample).run
      (Config.load "/p" "plv8gen.config.json")).1 = .error e) ∧
    ((twofoldSample repeatingSample).run (Config.loadManifest "/p/package.json")).1 =
      ((twofoldSample lastSample).run (Config.loadManifest "/p/package.json")).1 := by
  have hvalue : ∀ t ∈ [lastSample, repeatingSample], ∃ v w,
      Value.ofText t = .ok v ∧ Value.ofText (Config.asMember t) = .ok w := by
    intro t ht
    have hv : (Value.ofText t).map (fun _ => ()) = .ok () := by revert t; decide +kernel
    have hw : (Value.ofText (Config.asMember t)).map (fun _ => ()) = .ok () := by
      revert t; decide +kernel
    rcases Config.map_eq_ok_iff.1 hv with ⟨v, hv, -⟩
    rcases Config.map_eq_ok_iff.1 hw with ⟨w, hw, -⟩
    exact ⟨v, w, hv, hw⟩
  have hconfig : ((twofoldSample lastSample).run
      (Config.load "/p" "plv8gen.config.json")).1.map LoadedConfig.config =
        .ok ⟨some "f", some false, none, [], []⟩ := by decide +kernel
  have hkeeps : Config.KeepsLast repeatingSample lastSample :=
    ⟨[("drop", .scalar (.boolean true)), ("root", .scalar (.string "f")),
      ("drop", .scalar (.boolean false))], by cbv, by cbv⟩
  rcases hvalue lastSample (by simp) with ⟨v, w, hv, hw⟩
  rcases hvalue repeatingSample (by simp) with ⟨v', w', hv', hw'⟩
  have hlast := load_agreement (twofoldSample lastSample) (twofoldSample lastSample) "/p"
    "plv8gen.config.json" "/p/package.json" lastSample v w hv hw (by decide +kernel)
    (by decide +kernel)
  have hrepeating := load_agreement (twofoldSample repeatingSample)
    (twofoldSample repeatingSample) "/p" "plv8gen.config.json" "/p/package.json" repeatingSample
    v' w' hv' hw' (by decide +kernel) (by decide +kernel)
  have hrefused := hrepeating.2 (by decide +kernel)
  rcases Config.map_eq_ok_iff.1 hconfig with ⟨l, hl, hc⟩
  rcases ((hlast.1 (by decide +kernel)).1 l.config).1 ⟨l, hl, rfl⟩ with ⟨l', hl', hsame⟩
  exact ⟨⟨l, l', hl, hl', hc, hsame⟩, hrefused.1,
    hrefused.2.2 lastSample (twofoldSample lastSample) hkeeps (by decide +kernel)⟩

end Store

end ProcedureGen
