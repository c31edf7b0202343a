import Conformance.Arguments
import Conformance.Proofs.Outcome
import Mathlib.Tactic.Common
set_option autoImplicit false

/-!
# Where options stand

A command line sets options and names fixtures, in any order up to a `--`. What is read of it is what its
options alone make of an empty draft, with its fixtures behind each other: to set an option and to name a
fixture are done on different fields. Two options may be exchanged, since they too are on different fields
or are in conflict either way.
-/
namespace Conformance.Arguments

/-! ## What a command line is made of -/

inductive Setting where
  | keepGoing | checkStatus | verbose
  | decoder (value : String)
deriving DecidableEq, Repr

inductive Setting.Spelled : Setting → String → Prop where
  | keepGoing : Spelled .keepGoing "--keep-going"
  | checkStatus : Spelled .checkStatus "--check-status"
  | verboseLetter : Spelled .verbose "-v"
  | verbose : Spelled .verbose "--verbose"
  | decoder (value : String) : Spelled (.decoder value) ("--decoder=" ++ value)

/-- A word that is a fixture also in front of `--`. -/
def Plain (word : String) : Prop := word = "-" ∨ word.toList.head? ≠ some '-'

/-- The words set the settings and name the fixtures, both in their order. -/
inductive Arranged : (settings : List Setting) → (fixtures words : List String) → Prop where
  | done : Arranged [] [] []
  | setting {s : Setting} {word : String} {settings : List Setting} {fixtures words : List String}
      (spelled : s.Spelled word) (rest : Arranged settings fixtures words) :
      Arranged (s :: settings) fixtures (word :: words)
  | fixture {word : String} {settings : List Setting} {fixtures words : List String}
      (plain : Plain word) (rest : Arranged settings fixtures words) :
      Arranged settings (word :: fixtures) (word :: words)
  | behindDashes (fixtures : List String) : Arranged [] fixtures ("--" :: fixtures)

def chosen (keepGoing checkStatus verbose : Bool) (decoder : Option String) : List Setting :=
  (if keepGoing then [.keepGoing] else []) ++ (if checkStatus then [.checkStatus] else []) ++
    (if verbose then [.verbose] else []) ++ decoder.toList.map .decoder

/-! ## Drafts with nothing held back -/

namespace Draft

def set (d : Draft) : Setting → Except Interruption Draft
  | .keepGoing => d.raise .keepGoing
  | .checkStatus => d.raise .checkStatus
  | .verbose => d.raise .verbose
  | .decoder value => d.setDecoder value

def setAll (d : Draft) : List Setting → Except Interruption Draft
  | [] => .ok d
  | s :: rest => d.set s >>= fun d => d.setAll rest

def addFixtures (d : Draft) (fixtures : List String) : Draft :=
  { d with fixtures := d.fixtures ++ fixtures }

variable {d e : Draft}

theorem settle_of_held (h : d.held = .nothing) : d.settle = .ok d := by
  rw [settle, h]
  exact congrArg (fun held => Except.ok { d with held := held }) h.symm

theorem held_of_setDecoder {value : String} (h : d.setDecoder value = .ok e) : e.held = d.held := by
  rw [setDecoder] at h
  split at h
  · cases h
  · rw [← Except.ok.inj h]

theorem held_of_set {s : Setting} (h : d.set s = .ok e) : e.held = d.held := by
  cases s with
  | decoder value => exact held_of_setDecoder h
  | keepGoing | checkStatus | verbose =>
    simp only [set, raise] at h
    split at h
    · cases h
    · rw [← Except.ok.inj h]

theorem held_of_settle (h : d.settle = .ok e) : e.held = .nothing := by
  unfold settle at h
  dsimp only at h
  split at h
  · rw [← Except.ok.inj h]
  · split at h
    · cases h
    · rw [← Except.ok.inj h]
  · cases h
  · exact held_of_setDecoder h

/-- Two settings are on different fields, or the later one is in conflict with the earlier one. -/
theorem set_comm (d : Draft) (s t : Setting) :
    (d.set s >>= fun d => d.set t) = (d.set t >>= fun d => d.set s) := by
  obtain ⟨fixtures, decoder, keepGoing, checkStatus, verbose, held⟩ := d
  cases s <;> cases t <;> cases decoder <;> cases keepGoing <;> cases checkStatus <;> cases verbose <;> rfl

theorem setAll_perm {settings settings' : List Setting} (h : settings.Perm settings') (d : Draft) :
    d.setAll settings = d.setAll settings' := by
  induction h generalizing d with
  | nil => rfl
  | cons s _ ih =>
    rw [setAll, setAll]
    congr 1
    funext d
    exact ih d
  | swap s t rest =>
    change (d.set t >>= fun d => d.set s >>= fun d => d.setAll rest) =
      (d.set s >>= fun d => d.set t >>= fun d => d.setAll rest)
    rw [← bind_assoc, set_comm, bind_assoc]
  | trans _ _ ih ih' => rw [ih, ih']

theorem setAll_chosen (keepGoing checkStatus verbose : Bool) (decoder : Option String) :
    setAll {} (chosen keepGoing checkStatus verbose decoder) =
      .ok ⟨[], decoder, keepGoing, checkStatus, verbose, .nothing⟩ := by
  cases keepGoing <;> cases checkStatus <;> cases verbose <;> cases decoder <;> rfl

theorem set_addFixtures (d : Draft) (s : Setting) (fixtures : List String) :
    (d.addFixtures fixtures).set s = (d.set s).map (addFixtures · fixtures) := by
  cases s with
  | decoder value =>
    simp only [set, setDecoder, apply_ite (Except.map _)]
    rfl
  | keepGoing | checkStatus | verbose =>
    simp only [set, raise, apply_ite (Except.map _)]
    rfl

theorem setAll_addFixtures (d : Draft) (settings : List Setting) (fixtures : List String) :
    (d.addFixtures fixtures).setAll settings = (d.setAll settings).map (addFixtures · fixtures) := by
  induction settings generalizing d with
  | nil => rfl
  | cons s rest ih =>
    rw [setAll, setAll, set_addFixtures]
    cases d.set s with
    | error e => rfl
    | ok d => exact ih d

theorem addFixtures_append (d : Draft) (fixtures others : List String) :
    (d.addFixtures fixtures).addFixtures others = d.addFixtures (fixtures ++ others) := by
  simp only [addFixtures, List.append_assoc]

/-! ## Words -/

/-- A fixture is held back or not, but it is named in the end. -/
theorem holdFixture_settle {word : String} (h : d.settle = .ok e) (hword : word ≠ "") :
    ∃ f, d.holdFixture word = .ok f ∧ f.settle = .ok (e.addFixtures [word]) := by
  have hempty : word.isEmpty = false := by simpa using hword
  cases hheld : d.held with
  | fixtures values =>
    simp only [settle, hheld] at h
    split at h
    · cases h
    · next hvalues =>
      obtain rfl := Except.ok.inj h
      refine ⟨{ d with held := .fixtures (values ++ [word]) }, by rw [holdFixture, hheld], ?_⟩
      have hall : (values ++ [word]).any (·.isEmpty) = false := by
        rw [List.any_append, Bool.eq_false_iff.2 hvalues]
        simp [hempty]
      simp only [settle, hall, addFixtures, List.append_assoc]
      rfl
  | nothing | decoder | decoderValue value =>
    refine ⟨{ e with held := .fixtures [word] }, ?_, ?_⟩
    · simp only [holdFixture, hheld, h]
      rfl
    · simp [settle, hempty, addFixtures, held_of_settle h]

end Draft

open Draft

variable {d e : Draft}

theorem plain_settle {text : String} (h : d.settle = .ok e) (htext : text ≠ "") :
    ∃ f, plain d text = .ok f ∧ f.settle = .ok (e.addFixtures [text]) := by
  have hplain : plain d text = d.holdFixture text := by
    cases hheld : d.held with
    | decoder =>
      rw [settle, hheld] at h
      cases h
    | nothing | fixtures _ | decoderValue _ => rw [plain, hheld]
  rw [hplain]
  exact holdFixture_settle h htext

theorem ne_dashes_of_plain {text : String} (h : Plain text) : text ≠ "--" := by
  rintro rfl
  exact absurd h (by unfold Plain; decide)

theorem word_of_plain (d : Draft) {text : String} (h : Plain text) : word d text = plain d text := by
  unfold word
  rcases h with rfl | h
  · rfl
  · split
    · next htext => simp [htext] at h
    · next htext => simp [htext] at h
    · rfl

theorem toList_decoderWord (value : String) :
    ("--decoder=" ++ value).toList = '-' :: '-' :: ("decoder=".toList ++ value.toList) := by
  rw [String.toList_append]
  rfl

theorem splitValue_decoder (value : String) :
    splitValue ("decoder=".toList ++ value.toList) = ("decoder", some value) := by
  conv_rhs => rw [← String.ofList_toList (s := value)]
  rfl

theorem ne_dashes_of_spelled {s : Setting} {text : String} (h : s.Spelled text) : text ≠ "--" := by
  cases h with
  | decoder value =>
    intro heq
    have hchars := toList_decoderWord value
    rw [heq] at hchars
    cases hchars
  | keepGoing | checkStatus | verboseLetter | verbose => decide

theorem flag_of_settle (h : d.settle = .ok e) (f : Flag) : d.flag f = e.raise f := by
  rw [flag, h]

theorem word_of_spelled {s : Setting} {text : String} (h : d.settle = .ok e) (htext : s.Spelled text) :
    word d text = e.set s := by
  cases htext with
  | keepGoing => exact flag_of_settle h .keepGoing
  | checkStatus => exact flag_of_settle h .checkStatus
  | verbose => exact flag_of_settle h .verbose
  | verboseLetter =>
    change letters d ['v'] = e.raise .verbose
    have hletter : Flag.ofLetter? 'v' = some .verbose := rfl
    simp only [letters, hletter, flag_of_settle h]
    cases e.raise .verbose <;> rfl
  | decoder value =>
    simp only [word, toList_decoderWord, splitValue_decoder]
    unfold long
    rw [if_pos rfl, h]
    rfl

theorem holdAll_settle {fixtures : List String} (h : d.settle = .ok e) (hfixtures : ∀ f ∈ fixtures, f ≠ "") :
    (holdAll d fixtures >>= settle) = .ok (e.addFixtures fixtures) := by
  induction fixtures generalizing d e with
  | nil =>
    change d.settle = _
    rw [h]
    simp [addFixtures]
  | cons first rest ih =>
    rw [List.forall_mem_cons] at hfixtures
    obtain ⟨f, hhold, hsettle⟩ := holdFixture_settle h hfixtures.1
    rw [holdAll, hhold]
    change (holdAll f rest >>= settle) = _
    rw [ih hsettle hfixtures.2, addFixtures_append]
    rfl

/-! ## The whole line -/

/-- The settings are made on the draft that stands for the words before, and the fixtures are added to it. -/
theorem scan_arranged {settings : List Setting} {fixtures words : List String}
    (h : Arranged settings fixtures words) (hfixtures : ∀ f ∈ fixtures, f ≠ "") (hsettle : d.settle = .ok e) :
    (scan d words >>= settle) = (e.setAll settings).map (addFixtures · fixtures) := by
  induction h generalizing d e with
  | done =>
    change d.settle = _
    rw [hsettle]
    simp [setAll, addFixtures, Except.map]
  | @setting s text settings fixtures words spelled rest ih =>
    rw [scan, if_neg (ne_dashes_of_spelled spelled), word_of_spelled hsettle spelled, setAll]
    cases hset : e.set s with
    | error failure => rfl
    | ok f =>
      have hheld : f.held = .nothing := (held_of_set hset).trans (held_of_settle hsettle)
      exact ih hfixtures (settle_of_held hheld)
  | @fixture text settings fixtures words hplain rest ih =>
    rw [List.forall_mem_cons] at hfixtures
    obtain ⟨f, hword, hsettled⟩ := plain_settle hsettle hfixtures.1
    rw [scan, if_neg (ne_dashes_of_plain hplain), word_of_plain d hplain, hword]
    change (scan f words >>= settle) = _
    rw [ih hfixtures.2 hsettled, setAll_addFixtures]
    cases e.setAll settings with
    | error failure => rfl
    | ok f => exact congrArg Except.ok (addFixtures_append f [text] fixtures)
  | behindDashes fixtures =>
    rw [scan, if_pos rfl, holdAll_settle hsettle hfixtures]
    rfl

theorem parse_eq (words : List String) (environment : Option String) :
    parse words environment = (scan {} words >>= settle).map (·.options environment) := by
  rw [parse]
  cases scan {} words with
  | error failure => rfl
  | ok d =>
    change _ = d.settle.map _
    dsimp only
    cases d.settle <;> rfl

theorem parse_of_arranged {settings : List Setting} {fixtures words : List String}
    (h : Arranged settings fixtures words) (hfixtures : ∀ f ∈ fixtures, f ≠ "")
    {keepGoing checkStatus verbose : Bool} {decoder : Option String}
    (hchosen : settings.Perm (chosen keepGoing checkStatus verbose decoder)) (environment : Option String) :
    parse words environment =
      .ok ⟨fixtures, decoder.getD (environment.getD defaultDecoder), keepGoing, checkStatus, verbose⟩ := by
  rw [parse_eq, scan_arranged h hfixtures rfl, setAll_perm hchosen, setAll_chosen]
  cases decoder <;> rfl

/-- A command line gives its fixtures in their order and its settings, with the decoder from the environment or by
default where it sets none, and where its settings stand makes no difference. -/
theorem parse_arranged {settings : List Setting} {fixtures words : List String}
    (h : Arranged settings fixtures words) (hfixtures : ∀ f ∈ fixtures, f ≠ "")
    {keepGoing checkStatus verbose : Bool} {decoder : Option String}
    (hchosen : settings.Perm (chosen keepGoing checkStatus verbose decoder)) (environment : Option String) :
    parse words environment =
      .ok ⟨fixtures, decoder.getD (environment.getD "holmes"), keepGoing, checkStatus, verbose⟩ ∧
    ∀ settings' words', Arranged settings' fixtures words' → settings'.Perm settings →
      parse words' environment = parse words environment := by
  have hparse := parse_of_arranged h hfixtures hchosen environment
  refine ⟨hparse, fun settings' words' h' hperm => ?_⟩
  rw [hparse, parse_of_arranged h' hfixtures (hperm.trans hchosen) environment]

/-- Two words that look like options are fixtures, and the decoder's name is empty in spite of the environment. -/
theorem parse_arranged_dashes :
    let words := ["-", "--decoder=", "a.json", "-v", "--keep-going", "--", "-x", "--"]
    let words' := ["--verbose", "--keep-going", "--decoder=", "-", "a.json", "--", "-x", "--"]
    parse words (some "sherlock") = .ok ⟨["-", "a.json", "-x", "--"], "", true, false, true⟩ ∧
      parse words' (some "sherlock") = parse words (some "sherlock") := by
  intro words words'
  have hdecoder : Setting.Spelled (.decoder "") "--decoder=" := .decoder ""
  have hdash : Plain "-" := Or.inl rfl
  have hfile : Plain "a.json" := Or.inr (by decide)
  have h : Arranged [.decoder "", .verbose, .keepGoing] ["-", "a.json", "-x", "--"] words :=
    .fixture hdash (.setting hdecoder (.fixture hfile (.setting .verboseLetter (.setting .keepGoing
      (.behindDashes _)))))
  have h' : Arranged [.verbose, .keepGoing, .decoder ""] ["-", "a.json", "-x", "--"] words' :=
    .setting .verbose (.setting .keepGoing (.setting hdecoder (.fixture hdash (.fixture hfile
      (.behindDashes _)))))
  have hchosen : List.Perm [.decoder "", .verbose, .keepGoing] (chosen true false true (some "")) := by decide
  obtain ⟨hparse, hsame⟩ := parse_arranged h (by decide) hchosen (some "sherlock")
  exact ⟨hparse, hsame _ _ h' (by decide)⟩

/-- A way to write any settings and fixtures: the settings first. -/
theorem exists_arranged (settings : List Setting) (fixtures : List String) :
    ∃ words, Arranged settings fixtures words := by
  induction settings with
  | nil => exact ⟨_, .behindDashes fixtures⟩
  | cons s rest ih =>
    obtain ⟨words, h⟩ := ih
    cases s with
    | keepGoing => exact ⟨_, .setting .keepGoing h⟩
    | checkStatus => exact ⟨_, .setting .checkStatus h⟩
    | verbose => exact ⟨_, .setting .verbose h⟩
    | decoder value => exact ⟨_, .setting (.decoder value) h⟩

/-- Whatever can be asked for can be written, so that the environment has no say in it. -/
theorem exists_words_of_options (options : Options) (hfixtures : ∀ f ∈ options.fixtures, f ≠ "") :
    ∃ words, ∀ environment, parse words environment = .ok options := by
  obtain ⟨words, h⟩ := exists_arranged
    (chosen options.keepGoing options.checkStatus options.verbose (some options.decoder)) options.fixtures
  exact ⟨words, parse_of_arranged h hfixtures (List.Perm.refl _)⟩

end Conformance.Arguments
