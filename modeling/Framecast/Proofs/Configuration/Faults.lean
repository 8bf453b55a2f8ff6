/-
Everything that is wrong with a configuration.

A check stops at the first fault it finds, and what it would have found after it is not to be seen
in its code.  Here each fault is judged by itself: a digit by its byte, an entry of the stores by
itself and the entries before it.  `Input.faults` lists them all in the order of the checks, and
`Reports` says what a check has to do with such a list: it fails with the head of it, or the list
is empty and it succeeds.

Checks in a row report the faults of the first and then those of the second, though the second is
not made if the first fails.
-/
import Framecast.Proofs.Node.Registration

namespace Framecast

/-! ### Reports -/

/-- The check fails with the first of the faults, and succeeds if there are none. -/
def Reports {ε α : Type} (r : Except ε α) : List ε → Prop
  | [] => ∃ a, r = .ok a
  | fault :: _ => r = .error fault

/-- The fault of a condition that does not hold. -/
def otherwise {ε : Type} (holds : Prop) [Decidable holds] (fault : ε) : List ε :=
  if holds then [] else [fault]

@[simp] theorem otherwise_eq_nil {ε : Type} {holds : Prop} [Decidable holds] {fault : ε} :
    otherwise holds fault = [] ↔ holds := by
  unfold otherwise
  split <;> simp_all

theorem map_otherwise {ε δ : Type} (holds : Prop) [Decidable holds] (fault : ε) (f : ε → δ) :
    (otherwise holds fault).map f = otherwise holds (f fault) := by
  unfold otherwise
  split <;> rfl

section Reports

variable {ε δ α β : Type} {r : Except ε α} {faults more : List ε}

theorem Reports.ok_iff (h : Reports r faults) : (∃ a, r = .ok a) ↔ faults = [] := by
  cases faults with
  | nil => exact iff_of_true h rfl
  | cons fault rest =>
    refine iff_of_false ?_ (List.cons_ne_nil _ _)
    rintro ⟨a, ha⟩
    cases ha.symm.trans h

theorem Reports.error_iff (h : Reports r faults) (e : ε) :
    r = .error e ↔ faults.head? = some e := by
  cases faults with
  | nil =>
    obtain ⟨a, rfl⟩ := h
    exact iff_of_false nofun nofun
  | cons fault rest =>
    cases h
    rw [List.head?_cons, Option.some.injEq, Except.error.injEq]

theorem Reports.bind {f : α → Except ε β} (h : Reports r faults)
    (hf : ∀ a, r = .ok a → Reports (f a) more) : Reports (r >>= f) (faults ++ more) := by
  cases faults with
  | nil =>
    obtain ⟨a, rfl⟩ := h
    exact hf a rfl
  | cons fault rest =>
    cases h
    exact rfl

theorem Reports.mapError (h : Reports r faults) (f : ε → δ) :
    Reports (r.mapError f) (faults.map f) := by
  cases faults with
  | nil =>
    obtain ⟨a, rfl⟩ := h
    exact ⟨a, rfl⟩
  | cons fault rest =>
    cases h
    exact rfl

theorem Reports.map (h : Reports r faults) (f : α → β) : Reports (r.map f) faults := by
  cases faults with
  | nil =>
    obtain ⟨a, rfl⟩ := h
    exact ⟨f a, rfl⟩
  | cons fault rest =>
    cases h
    exact rfl

/-- A condition is checked first. -/
theorem Reports.guard (h : Reports r faults) (holds : Prop) [Decidable holds] (fault : ε) :
    Reports (if holds then r else .error fault) (otherwise holds fault ++ faults) := by
  unfold otherwise
  split
  · exact h
  · exact rfl

end Reports

/-! ### Digits -/

namespace Hex

/-- The bytes that are no digits, with their places. -/
def badDigits (start : Nat) (text : Bytes) : List Fault :=
  (text.zipIdx start).flatMap fun (b, place) => otherwise (digit? b).isSome (.badDigit b place)

/-- What is wrong with a text of digits. -/
def faults (text : Bytes) : List Fault :=
  otherwise (text.length % 2 = 0) .oddLength ++ badDigits 0 text

theorem badDigits_cons (start : Nat) (b : UInt8) (text : Bytes) :
    badDigits start (b :: text) =
      otherwise (digit? b).isSome (.badDigit b start) ++ badDigits (start + 1) text := by
  rw [badDigits, List.zipIdx_cons, List.flatMap_cons]
  rfl

/-- Reading pairs of digits stops at the first byte that is none.  By induction over the pairs. -/
theorem reports_pairs (place : Nat) (text : Bytes) (h : text.length % 2 = 0) :
    Reports (pairs place text) (badDigits place text) ∧
      ∀ b, pairs place text = .ok b → 2 * b.length = text.length := by
  fun_induction pairs place text with
  | case1 place =>
    refine ⟨⟨[], rfl⟩, fun b hb => ?_⟩
    cases hb
    rfl
  | case2 place b => cases h
  | case3 place hi lo rest hhi =>
    refine ⟨?_, nofun⟩
    rw [badDigits_cons, hhi]
    exact rfl
  | case4 place hi lo rest d hhi hlo =>
    refine ⟨?_, nofun⟩
    rw [badDigits_cons, badDigits_cons, hhi, hlo]
    exact rfl
  | case5 place hi lo rest d d' hhi hlo ih =>
    have heven : rest.length % 2 = 0 := by
      rw [List.length_cons, List.length_cons] at h
      omega
    obtain ⟨hreports, hlength⟩ := ih heven
    refine ⟨?_, fun b hb => ?_⟩
    · rw [badDigits_cons, badDigits_cons, hhi, hlo]
      exact hreports.map _
    · cases hrest : pairs (place + 2) rest with
      | error e =>
        rw [hrest] at hb
        cases hb
      | ok rest' =>
        rw [hrest] at hb
        cases hb
        rw [List.length_cons, List.length_cons, List.length_cons, ← hlength rest' hrest]
        omega

theorem reports_decode (text : Bytes) :
    Reports (decode text) (faults text) ∧ ∀ b, decode text = .ok b → 2 * b.length = text.length := by
  unfold decode
  by_cases hodd : text.length % 2 = 1
  · rw [if_pos hodd]
    refine ⟨?_, nofun⟩
    have hnot : ¬ text.length % 2 = 0 := by omega
    rw [faults, otherwise, if_neg hnot]
    exact rfl
  · have heven : text.length % 2 = 0 := by omega
    rw [if_neg hodd, faults, otherwise, if_pos heven]
    exact reports_pairs 0 text heven

end Hex

namespace Configuration

/-! ### The checks -/

/-- What is wrong with the digits of a key. -/
def digitFaults (digits : Bytes) : List ConfigFault :=
  (Hex.faults digits).map .keyNotHex ++ otherwise (digits.length = 2 * Key.size) .keyLength

/-- What is wrong with the text of a key. -/
def keyFaults : Option String → List ConfigFault
  | none => [.keyMissing]
  | some text => digitFaults (Key.utf8 (Text.trim text.toList))

/-- What is wrong with a text that may be missing or blank. -/
def textFaults {α : Type} (read : List Char → Option α) (fault : String → ConfigFault) :
    Option String → List ConfigFault
  | none => []
  | some text =>
    let trimmed := Text.trim text.toList
    otherwise (trimmed = [] ∨ (read trimmed).isSome) (fault (String.ofList trimmed))

/-- What is wrong with the entry of a store, after the entries before it. -/
def entryFaults (earlier : List Retention) (r : Retention) : List ConfigFault :=
  otherwise (∀ q ∈ earlier, q.channel ≠ r.channel) (.duplicateBuffer r.channel) ++
    otherwise (r.units ≠ 0) .noBuffers ++
    otherwise (r.channel = .message → r.maxUnit ≤ Packet.maxPayload) .messageBufferTooLarge

/-- What is wrong with the stores. -/
def storeFaults (list : List Retention) : List ConfigFault :=
  list.zipIdx.flatMap fun (r, place) => entryFaults (list.take place) r

/-- Everything that is wrong with a configuration, in the order of the checks. -/
def Input.faults (input : Input) : List ConfigFault :=
  otherwise (input.version = 0 ∨ input.version = currentVersion)
      (.unsupportedVersion input.version) ++
    (keyFaults input.meeting.key ++
    (otherwise (input.meeting.socket ≠ some 0) .socketZero ++
    (textFaults readHost .badDestination input.meeting.host ++
    (textFaults Endpoint.parse? .badRendezvous input.meeting.rendezvous ++
    storeFaults (input.retention.getD [])))))

theorem reports_checkVersion (version : Nat) :
    Reports (checkVersion version)
      (otherwise (version = 0 ∨ version = currentVersion) (.unsupportedVersion version)) := by
  by_cases hzero : version = 0
  · rw [hzero]
    exact ⟨currentVersion, rfl⟩
  · unfold checkVersion otherwise
    simp only [hzero, if_false, false_or]
    split
    · exact ⟨version, rfl⟩
    · exact rfl

theorem reports_ofBytes (b : Bytes) :
    Reports ((Key.ofBytes? b).elim (.error (.configuration .keyLength)) .ok)
      (otherwise (2 * b.length = 2 * Key.size) (Failure.configuration .keyLength)) := by
  unfold Key.ofBytes? Key.size
  by_cases hsize : b.length = 16
  · rw [dif_pos hsize, otherwise, if_pos (by omega)]
    exact ⟨_, rfl⟩
  · rw [dif_neg hsize, otherwise, if_neg (by omega)]
    exact rfl

theorem parse_eq (text : String) :
    Key.parse text =
      (Hex.decode (Key.utf8 (Text.trim text.toList))).mapError
          (fun why => Failure.configuration (.keyNotHex why)) >>= fun b =>
        (Key.ofBytes? b).elim (.error (.configuration .keyLength)) .ok := by
  unfold Key.parse
  cases Hex.decode (Key.utf8 (Text.trim text.toList)) with
  | error why => rfl
  | ok b =>
    show _ = (Key.ofBytes? b).elim _ _
    dsimp only
    cases Key.ofBytes? b <;> rfl

theorem reports_checkKey (key : Option String) :
    Reports (checkKey key) ((keyFaults key).map .configuration) := by
  cases key with
  | none => exact rfl
  | some text =>
    show Reports (Key.parse text) _
    rw [parse_eq, keyFaults]
    generalize Key.utf8 (Text.trim text.toList) = digits
    have hdecode := Hex.reports_decode digits
    rw [digitFaults, List.map_append, List.map_map]
    refine (hdecode.1.mapError _).bind fun b hb => ?_
    rw [map_otherwise, ← hdecode.2 b (mapError_eq_ok hb)]
    exact reports_ofBytes b

theorem reports_checkSocket (socket : Option UInt16) :
    Reports (checkSocket socket) (otherwise (socket ≠ some 0) .socketZero) := by
  unfold checkSocket
  split
  · exact ⟨_, rfl⟩
  · exact rfl
  · rename_i socket hsocket
    have hnonzero : some socket ≠ some 0 := fun h => hsocket (Option.some.inj h)
    rw [otherwise, if_pos hnonzero]
    exact ⟨_, rfl⟩

theorem reports_checkText {α : Type} (read : List Char → Option α) (fault : String → ConfigFault)
    (text : Option String) : Reports (checkText read fault text) (textFaults read fault text) := by
  cases text with
  | none => exact ⟨none, rfl⟩
  | some text =>
    unfold checkText textFaults otherwise
    dsimp only
    cases htrim : Text.trim text.toList with
    | nil => exact ⟨none, rfl⟩
    | cons c rest =>
      dsimp only [List.isEmpty_cons]
      cases hread : read (c :: rest) with
      | none => exact rfl
      | some a => exact ⟨some a, rfl⟩

/-- The check of the stores remembers the channels of the entries before. -/
def Remembers (seen : List Channel) (earlier : List Retention) : Prop :=
  ∀ c, c ∈ seen ↔ ∃ q ∈ earlier, q.channel = c

theorem Remembers.concat {seen : List Channel} {earlier : List Retention}
    (h : Remembers seen earlier) (r : Retention) :
    Remembers (r.channel :: seen) (earlier ++ [r]) := by
  intro c
  rw [List.mem_cons, h c]
  simp [or_comm, eq_comm]

/-- An entry is checked by itself, and then the rest of the stores. -/
theorem reports_entry {seen : List Channel} {earlier rest : List Retention} {r : Retention}
    {faults : List ConfigFault} (hseen : Remembers seen earlier)
    (h : Reports (checkStores (r.channel :: seen) rest) faults) :
    Reports (checkStores seen (r :: rest)) (entryFaults earlier r ++ faults) := by
  have hnew : (∀ q ∈ earlier, q.channel ≠ r.channel) ↔ r.channel ∉ seen := by
    rw [hseen]
    simp
  have hturn : checkStores seen (r :: rest) =
      if ∀ q ∈ earlier, q.channel ≠ r.channel then
        if r.units ≠ 0 then
          if r.channel = .message → r.maxUnit ≤ Packet.maxPayload then
            checkStores (r.channel :: seen) rest
          else .error .messageBufferTooLarge
        else .error .noBuffers
      else .error (.duplicateBuffer r.channel) := by
    have hlarge : (r.channel = .message ∧ r.maxUnit > Packet.maxPayload) ↔
        ¬ (r.channel = .message → r.maxUnit ≤ Packet.maxPayload) := by
      rw [Classical.not_imp, Nat.not_le]
    rw [checkStores]
    simp only [hnew, hlarge, ite_not, ne_eq]
  rw [hturn, entryFaults, List.append_assoc, List.append_assoc]
  exact ((h.guard _ _).guard _ _).guard _ _

/-- By induction over the entries that are left. -/
theorem reports_checkStores {seen : List Channel} (earlier list : List Retention)
    (hseen : Remembers seen earlier) :
    Reports (checkStores seen list)
      ((list.zipIdx earlier.length).flatMap fun (r, place) =>
        entryFaults ((earlier ++ list).take place) r) := by
  induction list generalizing seen earlier with
  | nil => exact ⟨(), rfl⟩
  | cons r rest ih =>
    have hrest := ih (earlier ++ [r]) (hseen.concat r)
    rw [List.append_assoc, List.singleton_append, List.length_append, List.length_singleton]
      at hrest
    rw [List.zipIdx_cons, List.flatMap_cons]
    dsimp only
    rw [List.take_left]
    exact reports_entry hseen hrest

theorem reports_checkRetention (retention : Option (List Retention)) :
    Reports (checkRetention retention) (storeFaults (retention.getD [])) := by
  cases retention with
  | none => exact ⟨_, rfl⟩
  | some list => exact (reports_checkStores [] list (by simp [Remembers])).map _

/-- **A configuration is checked for its faults in order.** -/
theorem Input.reports_resolve (input : Input) :
    Reports input.resolve (input.faults.map .configuration) := by
  unfold Input.resolve Input.faults
  simp only [List.map_append]
  refine ((reports_checkVersion _).mapError _).bind fun version _ => ?_
  refine (reports_checkKey _).bind fun key _ => ?_
  refine ((reports_checkSocket _).mapError _).bind fun socket _ => ?_
  refine ((reports_checkText _ _ _).mapError _).bind fun host _ => ?_
  refine ((reports_checkText _ _ _).mapError _).bind fun rendezvous _ => ?_
  have hretention := (reports_checkRetention input.retention).mapError Failure.configuration
  rw [← List.append_nil (List.map _ (storeFaults _))]
  exact hretention.bind fun retention _ => ⟨_, rfl⟩

end Configuration

end Framecast
