import Conformance.Proofs.ExitCode
import Conformance.Proofs.FixtureText
set_option autoImplicit false

/-!
# A decoder that prints the expected document passes

There is one piece of an object's text that says what a fixture expects, since the text determines the
members. The reader of fixtures reads that piece in place, under a bracket of its own; the reader
of outputs makes the same of it as a document, and every document that is read is contained in itself.
-/
namespace Conformance

open Json Json.Reader

namespace Fixture

open Record (Field FieldsText textsOf)

theorem source_of_objectText {text : String} {fixture : Fixture} {entries : List (String × Bytes)}
    (hparse : parse text = .ok fixture) (hobject : ObjectText entries (Utf8.ofString text)) :
    fixture.Source entries := by
  obtain ⟨record, hdocument, hresolve⟩ := parse_eq_ok_iff.1 hparse
  obtain ⟨entries', hfields, hsource⟩ := Record.document_source hdocument
  have hentries : entries' = entries := by
    cases hfields with
    | named hobject' => exact objectText_unique hobject' hobject
    | byPosition harray =>
      obtain ⟨inside, after, -, hskip⟩ := hobject.skipSpace_eq
      obtain ⟨inside', after', -, hskip'⟩ := harray.skipSpace_eq
      cases (List.cons.inj (hskip.symm.trans hskip')).1
  rw [hentries] at hsource
  exact resolve_source hresolve hsource

/-- What a member `expected` of the object says is what the fixture expects. -/
theorem read_expected {text : String} {fixture : Fixture} {entries : List (String × Bytes)} {p : Bytes}
    (hparse : parse text = .ok fixture) (hobject : ObjectText entries (Utf8.ofString text))
    (hp : ("expected", p) ∈ entries) : Json.read p = .ok fixture.expected := by
  obtain ⟨q, hq, hread⟩ := (source_of_objectText hparse hobject).expected
  have hmem : p ∈ textsOf .expected entries :=
    List.mem_map.2 ⟨_, List.mem_filter.2 ⟨hp, rfl⟩, rfl⟩
  rw [hq] at hmem
  rwa [List.mem_singleton.1 hmem]

theorem compare_self {text : String} {fixture : Fixture} (hparse : parse text = .ok fixture) :
    Comparison.compare fixture.expected fixture.expected = .ok () :=
  (Comparison.compareAt_eq_ok_iff .root (parse_distinct hparse) fixture.expected).2 (.refl fixture.expected)

end Fixture

def ExternalDecoder.Prints {σ : Type} (d : ExternalDecoder) (launch : Launcher σ) (payload : Payload)
    (s : Session σ) (output : Bytes) : Prop :=
  hasNul d.program = false ∧ hasNul payload.data = false ∧
    ∃ diagnostics status world, launch d.program (ExternalDecoder.words payload) s.world =
      (.ended output diagnostics status, world) ∧ status.success = true

theorem toDecoder_of_prints {σ : Type} {d : ExternalDecoder} {launch : Launcher σ} {payload : Payload}
    {s : Session σ} {output : Bytes} {v : Json} (h : d.Prints launch payload s output)
    (hread : Json.read output = .ok v) : (d.toDecoder launch payload s).1 = .ok v := by
  obtain ⟨hprogram, hdata, diagnostics, status, world, hlaunch, hsuccess⟩ := h
  unfold ExternalDecoder.toDecoder
  dsimp only
  rw [hprogram, hdata, hlaunch]
  exact (Program.interpret_eq_ok_iff d output status v).2 ⟨hread, fun _ => hsuccess⟩

/-- A run of one fixture that passes, with an output that takes everything. -/
theorem Suite.run_counts_of_check {σ : Type} {files : FileSystem} {decoder : Decoder σ} {path : String}
    {s : σ} (h : (Suite.check (Suite.stagesOf (Suite.loader files) decoder) path s).1 = .ok ())
    (settings : Suite.Settings) :
    (Suite.run files decoder settings [path] s {}).counts = some ⟨1, 0, 1, 0⟩ := by
  have hevents : ∀ e ∈ Suite.events (Suite.stagesOf (Suite.loader files) decoder) [path] s, e.2 = .ok () := by
    rintro e he
    rw [Suite.events, Suite.events, List.mem_singleton] at he
    rw [he]
    exact h
  rw [Suite.run, Suite.runWith_eq, Suite.ran_eq_events _ _ _ _ hevents, Suite.events, Suite.events, h]
  rfl

/-- The piece of text that says what a fixture expects, with blanks around it, is an answer that passes. -/
theorem echo_passes {text : String} {fixture : Fixture} {entries : List (String × Bytes)}
    {p before after : Bytes} (hparse : Fixture.parse text = .ok fixture)
    (hobject : ObjectText entries (Utf8.ofString text)) (hp : ("expected", p) ∈ entries)
    (hbefore : Spaces before) (hafter : Spaces after) :
    Comparison.compare fixture.expected fixture.expected = .ok () ∧
    ∀ {σ : Type} (launch : Launcher σ) (d : ExternalDecoder) (s : Session σ),
      d.Prints launch fixture.payload s (before ++ p ++ after) →
      (d.toDecoder launch fixture.payload s).1 = .ok fixture.expected ∧
      ∀ (files : FileSystem) (path : String), files.text path = .ok text →
        (Suite.check (Suite.stagesOf (Suite.loader files) (d.toDecoder launch)) path s).1 = .ok () ∧
        ∀ settings, (Suite.run files (d.toDecoder launch) settings [path] s {}).counts = some ⟨1, 0, 1, 0⟩ := by
  have hread := read_between (Fixture.read_expected hparse hobject hp) hbefore hafter
  refine ⟨Fixture.compare_self hparse, fun launch d s hprints => ?_⟩
  have hanswer := toDecoder_of_prints hprints hread
  refine ⟨hanswer, fun files path hpath => ?_⟩
  have hload := (Program.load_eq_ok_iff files path fixture).2 ⟨text, hpath, hparse⟩
  have hcheck := (Suite.check_eq_ok_iff (Suite.loader files) (d.toDecoder launch) path s).2
    ⟨fixture, fixture.expected, hload, hanswer, Fixture.compare_self hparse⟩
  exact ⟨hcheck, Suite.run_counts_of_check hcheck⟩

theorem echo_passes_negative_zero :
    let text := "\x7b\"data\":\"\", \"expected\": [-0]\x7d"
    let launch : Launcher Unit := fun _ _ u => (.ended (Utf8.ofString "\t[-0]\n") [] (.exited 0), u)
    let d : ExternalDecoder := ⟨"holmes", true, false⟩
    ∃ fixture, Fixture.parse text = .ok fixture ∧
      (d.toDecoder launch fixture.payload ⟨(), []⟩).1 = .ok fixture.expected := by
  intro text launch d
  have hpayload : (Fixture.parse text).toOption.map (·.payload) = some ⟨.base64, ""⟩ := by
    decide +kernel
  cases hparse : Fixture.parse text with
  | error e =>
    rw [hparse] at hpayload
    cases hpayload
  | ok fixture =>
    rw [hparse] at hpayload
    have hdata : hasNul fixture.payload.data = false := by
      rw [show fixture.payload = ⟨.base64, ""⟩ from Option.some.inj hpayload]
      decide
    have hlist : ValueText (Bracket.square.opening :: ([] ++ [] ++ [byte '-', byte '0'] ++ [byte ']'])) :=
      .enclosed (.item .first (.element spaces_nil) (.negative (.intro .zero (.none .none))) (.closed spaces_nil))
    have hdataKey : KeyText "data" ([] ++ byte '"' :: (Utf8.ofString "data\"" ++ [] ++ byte ':' :: [])) :=
      .intro spaces_nil rfl spaces_nil spaces_nil
    have hexpectedKey : KeyText "expected"
        ([0x20] ++ byte '"' :: (Utf8.ofString "expected\"" ++ [] ++ byte ':' :: [0x20])) :=
      .intro (by decide) rfl spaces_nil (by decide)
    have hclosed : Entries .curly KeyText false [] ([] ++ [byte '\x7d']) := .closed spaces_nil
    have hinside := Entries.item .first hdataKey (.string .closed)
      (.item (.comma spaces_nil) hexpectedKey hlist hclosed)
    have hobject : ObjectText [("data", [byte '"', byte '"']), ("expected", Utf8.ofString "[-0]")]
        (Utf8.ofString text) :=
      cast (congrArg (Enclosed _ _ _) (by decide +kernel)) (Enclosed.intro spaces_nil hinside spaces_nil)
    have hmember : ("expected", Utf8.ofString "[-0]") ∈
        [("data", [byte '"', byte '"']), ("expected", Utf8.ofString "[-0]")] := by simp
    have hecho := echo_passes hparse hobject hmember (show Spaces [0x09] by decide)
      (show Spaces [0x0A] by decide)
    exact ⟨fixture, rfl, (hecho.2 launch d ⟨(), []⟩ ⟨by decide, hdata, [], .exited 0, (), rfl, rfl⟩).1⟩

end Conformance
