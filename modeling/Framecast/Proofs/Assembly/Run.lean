/-
An assembly in use: a run of calls, in any order.

`perform` does one call, `run` a list of them, and `trace` is the record of a run, one
step for each call with its answer and the assembly before and after it.  What is said
of a whole run is said of its trace, so that "once", "earlier" and "ever" are counted
over what really happened.

Every call keeps the invariant, so every run from an assembly that has seen nothing
does.
-/
import Framecast.Proofs.Assembly.Round

namespace Framecast

namespace Assembly

/-- A call to an assembly. -/
inductive Call where
  | receive (p : Packet)
  | take (id : Int32)
  | request (now : Int)

/-- What a call gives back. -/
inductive Answer where
  | verdict (v : Verdict)
  | unit (b : Option Bytes)
  | wanted (l : List Wanted)
  deriving DecidableEq

/-- Does one call. -/
def perform (a : Assembly) : Call → Answer × Assembly
  | .receive p => (.verdict (a.receive p).1, (a.receive p).2)
  | .take id =>
    match a.take? id with
    | some (b, c) => (.unit (some b), c)
    | none => (.unit none, a)
  | .request now => (.wanted (a.request now).1, (a.request now).2)

/-- Does the calls of a list, one after another. -/
def run (a : Assembly) (calls : List Call) : Assembly :=
  calls.foldl (fun a c => (a.perform c).2) a

/-- One call of a run: what was called, what came of it. -/
structure Step where
  before : Assembly
  call : Call
  answer : Answer
  after : Assembly

/-- The step that a call makes. -/
def step (a : Assembly) (c : Call) : Step :=
  { before := a, call := c, answer := (a.perform c).1, after := (a.perform c).2 }

/-- The record of a run. -/
def trace (a : Assembly) : List Call → List Step
  | [] => []
  | c :: rest => a.step c :: trace (a.perform c).2 rest

@[simp] theorem run_nil (a : Assembly) : a.run [] = a := rfl

@[simp] theorem run_concat (a : Assembly) (calls : List Call) (c : Call) :
    a.run (calls ++ [c]) = ((a.run calls).perform c).2 := by
  simp [run]

@[simp] theorem trace_concat (a : Assembly) (calls : List Call) (c : Call) :
    a.trace (calls ++ [c]) = a.trace calls ++ [(a.run calls).step c] := by
  induction calls generalizing a with
  | nil => rfl
  | cons d rest ih =>
      show a.step d :: (a.perform d).2.trace (rest ++ [c]) = _
      rw [ih]
      rfl

theorem run_append (a : Assembly) (calls later : List Call) :
    a.run (calls ++ later) = (a.run calls).run later :=
  List.foldl_append

theorem trace_append (a : Assembly) (calls later : List Call) :
    a.trace (calls ++ later) = a.trace calls ++ (a.run calls).trace later := by
  induction calls generalizing a with
  | nil => rfl
  | cons d rest ih =>
      show a.step d :: (a.perform d).2.trace (rest ++ later) = _
      rw [ih]
      rfl

/-- Every step of a run is a call after some run. -/
theorem exists_of_mem_trace {a : Assembly} {calls : List Call} {st : Step}
    (h : st ∈ a.trace calls) : ∃ before c, st = (a.run before).step c := by
  induction calls using List.reverseRecOn with
  | nil => cases h
  | append_singleton calls c ih =>
      rw [trace_concat, List.mem_append, List.mem_singleton] at h
      rcases h with hearlier | rfl
      · exact ih hearlier
      · exact ⟨calls, c, rfl⟩

/-- A call that hands on: either nothing happens, or the unit's slot is whole. -/
theorem perform_take {a : Assembly} (h : a.Placed) (id : Int32) :
    a.perform (.take id) = (.unit none, a) ∨
      ∃ s ∈ a, s.id = id ∧ s.taken = false ∧ s.isComplete = true ∧
        a.perform (.take id) = (.unit (some s.contents), a.handOn s) := by
  cases htake : a.take? id with
  | none =>
      left
      rw [perform, htake]
  | some r =>
      obtain ⟨b, c⟩ := r
      obtain ⟨s, hs, hid, htaken, hcomplete, rfl, rfl⟩ := (take?_eq_some h).mp htake
      refine Or.inr ⟨s, hs, hid, htaken, hcomplete, ?_⟩
      rw [perform, htake]

theorem Sound.perform {a : Assembly} (h : a.Sound) (c : Call) : (a.perform c).2.Sound := by
  cases c with
  | receive p => exact h.receive p
  | take id =>
      rcases perform_take h.toPlaced id with hp | ⟨s, hs, -, -, -, hp⟩
      · rw [hp]
        exact h
      · rw [hp]
        exact h.handOn hs
  | request now => exact h.request now

/-- **Every run keeps the invariant.** -/
theorem Sound.run {a : Assembly} (h : a.Sound) (calls : List Call) : (a.run calls).Sound := by
  induction calls generalizing a with
  | nil => exact h
  | cons c rest ih => exact ih (h.perform c)

/-- What is finished stays finished. -/
theorem isFinished_perform {a : Assembly} (h : a.Sound) (c : Call) {id : Int32}
    (hfin : a.isFinished id = true) : (a.perform c).2.isFinished id = true := by
  cases c with
  | receive p =>
      show (a.receive p).2.isFinished id = true
      rw [(opening_receive h p).isFinished_eq]
      exact hfin
  | take x =>
      rcases perform_take h.toPlaced x with hp | ⟨s, -, -, -, -, hp⟩
      · rw [hp]
        exact hfin
      · rw [hp]
        exact (isFinished_handOn a s id).mpr (Or.inl hfin)
  | request now =>
      show (a.request now).2.isFinished id = true
      rw [(opening_request h now).isFinished_eq]
      exact hfin

theorem isFinished_run {a : Assembly} (h : a.Sound) (calls : List Call) {id : Int32}
    (hfin : a.isFinished id = true) : (a.run calls).isFinished id = true := by
  induction calls generalizing a with
  | nil => exact hfin
  | cons c rest ih => exact ih (h.perform c) (isFinished_perform h c hfin)

/-- A unit that has its slot, or lost it to a younger one, still does after a call. -/
theorem exists_ge_perform {a : Assembly} (h : a.Sound) (c : Call) {id : Int32}
    (hid : ∃ s ∈ a, a.position s.id = a.position id ∧ id ≤ s.id) :
    ∃ t ∈ (a.perform c).2, (a.perform c).2.position t.id = (a.perform c).2.position id ∧
      id ≤ t.id := by
  cases c with
  | receive p => exact (opening_receive h p).exists_ge hid
  | take x =>
      rcases perform_take h.toPlaced x with hp | ⟨s, hs, -, -, -, hp⟩
      · rw [hp]
        exact hid
      · rw [hp]
        exact exists_ge_handOn h.toPlaced hs hid
  | request now => exact (opening_request h now).exists_ge hid

theorem exists_ge_run {a : Assembly} (h : a.Sound) (calls : List Call) {id : Int32}
    (hid : ∃ s ∈ a, a.position s.id = a.position id ∧ id ≤ s.id) :
    ∃ t ∈ a.run calls, (a.run calls).position t.id = (a.run calls).position id ∧ id ≤ t.id := by
  induction calls generalizing a with
  | nil => exact hid
  | cons c rest ih => exact ih (h.perform c) (exists_ge_perform h c hid)

theorem perform_limits {a : Assembly} (h : a.Sound) (c : Call) :
    (a.perform c).2.limits = a.limits ∧ (a.perform c).2.channel = a.channel := by
  cases c with
  | receive p =>
      show (a.receive p).2.limits = a.limits ∧ (a.receive p).2.channel = a.channel
      rcases receive_cases h p with hrefused | ⟨s, hs⟩
      · exact hrefused.limits_eq
      · rw [receive_of_takesIn h hs]
        show (a.keepIn p s).limits = a.limits ∧ (a.keepIn p s).channel = a.channel
        rw [keepIn, makeRoom_eq]
        exact ⟨rfl, rfl⟩
  | take id =>
      rcases perform_take h.toPlaced id with hp | ⟨s, -, -, -, -, hp⟩
      · rw [hp]
        exact ⟨rfl, rfl⟩
      · rw [hp]
        exact ⟨rfl, rfl⟩
  | request now =>
      show (a.request now).2.limits = a.limits ∧ (a.request now).2.channel = a.channel
      cases hnewest : a.newest with
      | none =>
          rw [request_of_newest_none hnewest]
          exact ⟨rfl, rfl⟩
      | some newest =>
          obtain ⟨b, n, hround, hb⟩ := round_request h hnewest now
          rw [hb]
          refine ⟨hround.limits, ?_⟩
          show b.channel = a.channel
          rw [hround.rest]

theorem run_limits {a : Assembly} (h : a.Sound) (calls : List Call) :
    (a.run calls).limits = a.limits ∧ (a.run calls).channel = a.channel := by
  induction calls generalizing a with
  | nil => exact ⟨rfl, rfl⟩
  | cons c rest ih =>
      obtain ⟨hlimits, hchannel⟩ := ih (h.perform c)
      obtain ⟨hl, hc⟩ := perform_limits h c
      exact ⟨hlimits.trans hl, hchannel.trans hc⟩

/-- Whether a packet is admitted depends on channel and limits only. -/
theorem admits_run {a : Assembly} (h : a.Sound) (calls : List Call) (p : Packet) :
    (a.run calls).admits p = a.admits p := by
  obtain ⟨hl, hc⟩ := run_limits h calls
  rw [admits, admits, hl, hc]

end Assembly

end Framecast
