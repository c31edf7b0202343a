import Conformance.Proofs.Schedule
import Mathlib.Data.List.Infix
set_option autoImplicit false

/-!
# An output that refuses to take more

A run stops at the first line that its output does not take in full. It has then written the front of what
it would write elsewhere, and as the lines of a fixture are written before the next one is begun, it has
asked of its stages what it would ask for the sake of the fixtures up to the one with that line.
-/
namespace Conformance.Suite

/-! ## Where a run is cut -/

def reached (settings : Settings) : ℕ → List Event → List Event
  | _, [] => []
  | room, e :: rest =>
    let size := (Utf8.ofString (lines settings e.1 e.2)).length
    e :: if size ≤ room then reached settings (room - size) rest else []

/-- An output that takes `room` bytes lets a run get as far as to its first `m` events: to the one among
whose lines the next byte would be, or to the last. -/
inductive Reach (settings : Settings) (all : List Event) (room : ℕ) : ℕ → Prop where
  | cut (k : ℕ) (inside : k < all.length) (taken : (text settings (all.take k)).length ≤ room)
      (refused : room < (text settings (all.take (k + 1))).length) : Reach settings all room (k + 1)
  | whole (taken : (text settings all).length ≤ room) : Reach settings all room all.length

section Reach

variable {settings : Settings} {all : List Event} {room : ℕ}

theorem reached_of_text_le (h : (text settings all).length ≤ room) : reached settings room all = all := by
  induction all generalizing room with
  | nil => rfl
  | cons e rest ih =>
    rw [text_cons, List.length_append] at h
    rw [reached, if_pos (by omega), ih (by omega)]

theorem exists_reach (settings : Settings) (all : List Event) (room : ℕ) :
    ∃ m, reached settings room all = all.take m ∧ m ≤ all.length ∧ Reach settings all room m := by
  induction all generalizing room with
  | nil => exact ⟨0, rfl, Nat.le_refl 0, .whole (Nat.zero_le room)⟩
  | cons e rest ih =>
    by_cases hfits : (Utf8.ofString (lines settings e.1 e.2)).length ≤ room
    · obtain ⟨m, hreached, hm, hreach⟩ := ih (room - (Utf8.ofString (lines settings e.1 e.2)).length)
      refine ⟨m + 1, ?_, Nat.succ_le_succ hm, ?_⟩
      · rw [reached, if_pos hfits, hreached, List.take_succ_cons]
      · cases hreach with
        | cut k inside taken refused =>
          refine .cut (k + 1) (Nat.succ_lt_succ inside) ?_ ?_
          · rw [List.take_succ_cons, text_cons, List.length_append]
            omega
          · rw [List.take_succ_cons, text_cons, List.length_append]
            omega
        | whole taken =>
          refine .whole ?_
          rw [text_cons, List.length_append]
          omega
    · refine ⟨1, ?_, by simp, .cut 0 (by simp) (Nat.zero_le room) ?_⟩
      · rw [reached, if_neg hfits, List.take_succ_cons, List.take_zero]
      · rw [List.take_succ_cons, List.take_zero, text_cons, List.length_append]
        omega

theorem text_take_le (settings : Settings) (all : List Event) {i j : ℕ} (h : i ≤ j) :
    (text settings (all.take i)).length ≤ (text settings (all.take j)).length := by
  have hfront : all.take i <+: all.take j := List.take_prefix_take_left h
  exact (hfront.flatMap _).length_le

/-- Nothing is begun behind a line that is not taken in full. -/
theorem Reach.taken_before {m i : ℕ} (h : Reach settings all room m) (hi : i < m) :
    (text settings (all.take i)).length ≤ room := by
  cases h with
  | cut k _ taken _ => exact Nat.le_trans (text_take_le settings all (Nat.le_of_lt_succ hi)) taken
  | whole taken =>
    have hle := text_take_le settings all (Nat.le_of_lt hi)
    rw [List.take_length] at hle
    exact Nat.le_trans hle taken

end Reach

/-! ## The loop -/

section Loop

variable {σ : Type} (stages : Stages σ) (settings : Settings) (paths : List String) (s : σ) (room : ℕ)
  (written : Bytes)

theorem process_limited_cons (passed failed : ℕ) (path : String) :
    process stages settings (path :: paths) ⟨passed, failed, s, ⟨some room, written⟩⟩ =
      let turn := check stages path s
      let line := Utf8.ofString (lines settings path turn.1)
      let next : Progress σ := ⟨passed + passes [(path, turn.1)], failed + failures [(path, turn.1)],
        turn.2, ⟨some (room - line.length), written ++ line.take room⟩⟩
      if room < line.length then (next, false)
      else if ends settings turn.1 then (next, true)
      else process stages settings paths next := by
  rw [process]
  dsimp only [Sink.write]
  obtain ⟨verdict, left⟩ := check stages path s
  simp only [decide_eq_false_iff_not, Nat.not_le]
  cases verdict with
  | ok u => rfl
  | error failure => rfl

/-- The loop goes through the events that are reached, and writes the front of the text of all. -/
theorem process_limited (passed failed : ℕ) :
    process stages settings paths ⟨passed, failed, s, ⟨some room, written⟩⟩ =
      let all := ran stages settings paths s
      let front := reached settings room all
      (⟨passed + passes front, failed + failures front, stateBehind stages (front.map (·.1)) s,
        ⟨some (room - (text settings all).length), written ++ (text settings all).take room⟩⟩,
        decide ((text settings all).length ≤ room)) := by
  induction paths generalizing passed failed s room written with
  | nil =>
    change (_, _) = (_, _)
    rw [ran, events, List.take_nil]
    simp [reached, text, passes, failures, stateBehind]
  | cons path rest ih =>
    rw [process_limited_cons, ran_cons]
    dsimp only
    rw [reached, text_cons]
    dsimp only
    generalize Utf8.ofString (lines settings path (check stages path s).1) = line
    by_cases hfits : line.length ≤ room
    · rw [if_neg (Nat.not_lt.2 hfits), if_pos hfits]
      cases ends settings (check stages path s).1 with
      | true =>
        rw [if_pos rfl, if_pos rfl, reached, text, List.flatMap_nil, List.append_nil, decide_eq_true hfits]
        rfl
      | false =>
        rw [if_neg Bool.false_ne_true, if_neg Bool.false_ne_true, ih]
        generalize ran stages settings rest (check stages path s).2 = all
        have htaken : decide ((text settings all).length ≤ room - line.length) =
            decide (line.length + (text settings all).length ≤ room) := decide_eq_decide.2 (by omega)
        dsimp only
        rw [List.take_append, List.take_of_length_le hfits, ← List.append_assoc, List.length_append, htaken,
          Nat.sub_sub, Nat.add_assoc, Nat.add_assoc, ← passes_append, ← failures_append]
        rfl
    · generalize (if ends settings (check stages path s).1 = true then []
        else ran stages settings rest (check stages path s).2) = all
      -- the first line is cut, whatever stands behind it
      have hcut : ¬ line.length + (text settings all).length ≤ room := by omega
      rw [if_pos (Nat.lt_of_not_le hfits), if_neg hfits, List.length_append, decide_eq_false hcut,
        List.take_append_of_le_length (by omega), show room - line.length = 0 by omega,
        show room - (line.length + (text settings all).length) = 0 by omega]
      rfl

theorem runWith_limited_eq :
    runWith stages settings paths s ⟨some room, written⟩ =
      let all := ran stages settings paths s
      let counts : Counts :=
        ⟨paths.length, paths.length - passes all - failures all, passes all, failures all⟩
      let full := text settings all ++ if settings.verbose then Utf8.ofString (summary counts) else []
      ⟨if full.length ≤ room then some counts else none,
        stateBehind stages ((reached settings room all).map (·.1)) s,
        ⟨some (room - full.length), written ++ full.take room⟩⟩ := by
  rw [runWith, process_limited]
  dsimp only
  generalize ran stages settings paths s = all
  by_cases htaken : (text settings all).length ≤ room
  · rw [reached_of_text_le htaken, decide_eq_true htaken, Nat.zero_add, Nat.zero_add]
    dsimp only
    cases settings.verbose with
    | true =>
      generalize Utf8.ofString (summary _) = ending
      have hending : ending.length ≤ room - (text settings all).length ↔
          (text settings all).length + ending.length ≤ room := by omega
      simp only [↓reduceIte, Sink.write, List.length_append, List.take_append,
        List.take_of_length_le htaken, List.append_assoc, Nat.sub_sub, decide_eq_true_eq, hending]
    | false => simp only [Bool.false_eq_true, ↓reduceIte, List.append_nil, htaken]
  · rw [decide_eq_false htaken]
    dsimp only
    generalize (if settings.verbose = true then Utf8.ofString (summary _) else []) = ending
    -- the text of the fixtures alone is too long, so the ending is not reached
    rw [if_neg (by rw [List.length_append]; omega), List.length_append,
      List.take_append_of_le_length (by omega), show room - (text settings all).length = 0 by omega,
      show room - ((text settings all).length + ending.length) = 0 by omega]

end Loop

/-! ## The record of a run that is cut -/

section Record

variable {σ : Type} (load : Loader σ) (decode : Decoder σ)

theorem accesses_limited_eq (settings : Settings) (paths : List String) (s : σ) (room : ℕ) :
    accesses (stagesOf load decode) settings paths s ⟨some room, []⟩ =
      (stateBehind (stagesOf load decode).recorded
        ((reached settings room (ran (stagesOf load decode) settings paths s)).map (·.1)) (s, [])).2 := by
  rw [accesses, runWith_limited_eq, ran_recorded]

/-- The visits of a run up to some fixture are what is asked by then. -/
theorem exists_visits (xs ys : List String) (s : σ) :
    ∃ visits later, visits.length = xs.length ∧
      List.Forall₂ Visit (events (stagesOf load decode) (xs ++ ys) s) (visits ++ later) ∧
      (stateBehind (stagesOf load decode).recorded xs (s, [])).2 = visits.flatten ∧
      (stateBehind (stagesOf load decode).recorded (xs ++ ys) (s, [])).2 = (visits ++ later).flatten := by
  obtain ⟨visits, hvisits, -, hxs⟩ := recorded_events load decode xs s []
  obtain ⟨later, hlater, -, hys⟩ :=
    recorded_events load decode ys (stateBehind (stagesOf load decode) xs s) visits.flatten
  rw [List.nil_append] at hxs
  refine ⟨visits, later, ?_, ?_, congrArg Prod.snd hxs, ?_⟩
  · rw [← hvisits.length_eq, ← List.length_map, events_paths]
  · rw [events_append]
    exact List.rel_append hvisits hlater
  · rw [stateBehind_append, hxs, hys, List.flatten_append]

end Record

/-- A run whose output takes `room` bytes against the run whose output takes all. -/
theorem runWith_limited {σ : Type} (load : Loader σ) (decode : Decoder σ) (settings : Settings)
    (paths : List String) (s : σ) (room : ℕ) :
    let stages := stagesOf load decode
    let all := ran stages settings paths s
    let full := runWith stages settings paths s {}
    let cut := runWith stages settings paths s ⟨some room, []⟩
    let asked := accesses stages settings paths s
    ∃ c visits later, full.counts = some c ∧
      full.out.written = text settings all ++ (if settings.verbose then Utf8.ofString (summary c) else []) ∧
      List.Forall₂ Visit all (visits ++ later) ∧ asked {} = (visits ++ later).flatten ∧
      asked ⟨some room, []⟩ = visits.flatten ∧ Reach settings all room visits.length ∧
      (∀ i < visits.length, (text settings (all.take i)).length ≤ room) ∧
      cut.out.written = full.out.written.take room ∧
      (full.out.written.length ≤ room →
        cut.counts = full.counts ∧ cut.decoder = full.decoder ∧ later = []) ∧
      (room < full.out.written.length → cut.counts = none) := by
  intro stages all full cut asked
  have hfull : full = _ := runWith_eq stages settings paths s []
  have hcut : cut = _ := runWith_limited_eq stages settings paths s room []
  have hwritten : full.out.written = text settings all ++ _ := congrArg (·.out.written) hfull
  obtain ⟨m, hreached, hm, hreach⟩ := exists_reach settings all room
  obtain ⟨visits, later, hlength, hvisits, hfront, hall⟩ :=
    exists_visits load decode ((all.take m).map (·.1)) ((all.drop m).map (·.1)) s
  rw [← List.map_append, List.take_append_drop] at hvisits hall
  rw [List.length_map, List.length_take, Nat.min_eq_left hm] at hlength
  rw [events_ran] at hvisits
  refine ⟨_, visits, later, congrArg Report.counts hfull, hwritten, hvisits, ?_, ?_, ?_, ?_, ?_, ?_, ?_⟩
  · exact (accesses_eq load decode settings paths s).trans hall
  · have hasked := accesses_limited_eq load decode settings paths s room
    rw [hreached] at hasked
    exact hasked.trans hfront
  · rw [hlength]
    exact hreach
  · intro i hi
    exact hreach.taken_before (hlength ▸ hi)
  · rw [hcut, hwritten]
    rfl
  · intro htaken
    have htext : (text settings all).length ≤ room := by
      rw [hwritten, List.length_append] at htaken
      omega
    have hsame : reached settings room all = all := reached_of_text_le htext
    refine ⟨?_, ?_, ?_⟩
    · rw [hwritten] at htaken
      rw [hcut, hfull]
      exact if_pos htaken
    · rw [hcut, hfull]
      exact congrArg (fun front => stateBehind stages (front.map (·.1)) s) hsame
    · have hm' : m = all.length := by
        rw [hreached, List.take_eq_self_iff] at hsame
        omega
      have hvisited : all.length = (visits ++ later).length := hvisits.length_eq
      rw [List.length_append] at hvisited
      exact List.eq_nil_of_length_eq_zero (by omega)
  · intro hrefused
    rw [hwritten] at hrefused
    rw [hcut]
    exact if_neg (Nat.not_le.2 hrefused)

end Conformance.Suite
