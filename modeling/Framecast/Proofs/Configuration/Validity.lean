/-
Which configurations are valid, and what a node can rely on.

`Input.Valid` says of each part by itself what it must be like, without an order of checks and
without a reader that goes from byte to byte.  A configuration has no faults exactly if it is
valid.  For the key this means that bytes which are digits make characters which are digits, for
the host that its text is the written form of an address, and for the stores that looking back from
each entry is looking for two of the same channel.

What comes out of a valid configuration is `Fit`: nothing in it needs to be checked again by those
who use it, but for one thing.  Nobody asks how much memory the stores take, and a store whose table
is too large to be laid out ends the program when it is registered.  So a node whose connection is
set up has its stores as well if and only if the configuration is `Storable`.
-/
import Framecast.Proofs.Address.Written
import Framecast.Proofs.Configuration.Faults
import Framecast.Proofs.Connection.Calls
import Framecast.Proofs.Rendezvous.Peers

namespace Framecast

/-! ### Keys -/

theorem Hex.badDigits_eq_nil_iff (start : Nat) (text : Bytes) :
    badDigits start text = [] ↔ ∀ b ∈ text, (digit? b).isSome = true := by
  induction text generalizing start with
  | nil => exact iff_of_true rfl nofun
  | cons b text ih =>
    rw [badDigits_cons, List.append_eq_nil_iff, otherwise_eq_nil, ih, List.forall_mem_cons]

namespace Key

open Text (IsHexDigit)

/-- A key is written as two digits for each of its bytes. -/
def Spelled (text : List Char) : Prop :=
  text.length = 2 * size ∧ ∀ c ∈ text, IsHexDigit c

theorem digits_utf8 (text : List Char) :
    (∀ b ∈ utf8 text, (Hex.digit? b).isSome = true) ↔ ∀ c ∈ text, IsHexDigit c := by
  simp only [← Hex.digits_utf8EncodeChar, utf8, List.mem_flatMap]
  exact ⟨fun h c hc b hb => h b ⟨c, hc, hb⟩, fun h b ⟨c, hc, hb⟩ => h c hc b hb⟩

theorem length_utf8 {text : List Char} (h : ∀ c ∈ text, IsHexDigit c) :
    (utf8 text).length = text.length := by
  induction text with
  | nil => rfl
  | cons c text ih =>
    obtain ⟨hdigit, hdigits⟩ := List.forall_mem_cons.mp h
    rw [utf8, List.flatMap_cons, List.length_append, utf8EncodeChar_ascii hdigit.ascii,
      List.length_singleton, List.length_cons, Nat.add_comm]
    exact congrArg (· + 1) (ih hdigits)

end Key

namespace Configuration

theorem digitFaults_eq_nil_iff (text : List Char) :
    digitFaults (Key.utf8 text) = [] ↔ Key.Spelled text := by
  rw [digitFaults, List.append_eq_nil_iff, List.map_eq_nil_iff, otherwise_eq_nil, Hex.faults,
    List.append_eq_nil_iff, otherwise_eq_nil, Hex.badDigits_eq_nil_iff, Key.digits_utf8]
  constructor
  · rintro ⟨⟨-, hdigits⟩, hlength⟩
    rw [Key.length_utf8 hdigits] at hlength
    exact ⟨hlength, hdigits⟩
  · rintro ⟨hlength, hdigits⟩
    rw [Key.length_utf8 hdigits, hlength]
    exact ⟨⟨rfl, hdigits⟩, rfl⟩

theorem keyFaults_eq_nil_iff (key : Option String) :
    keyFaults key = [] ↔ ∃ text, key = some text ∧ Key.Spelled (Text.trim text.toList) := by
  cases key with
  | none => simp [keyFaults]
  | some text => simp [keyFaults, digitFaults_eq_nil_iff]

/-! ### Addresses -/

/-- The bound on the length of a host rules out no address. -/
theorem readHost_eq_some_iff {text : List Char} {ip : IPv4} :
    readHost text = some ip ↔ text = ip.render.toList := by
  unfold readHost
  split
  · rename_i hlong
    refine iff_of_false nofun ?_
    rintro rfl
    exact absurd ip.length_render_le (Nat.not_le.mpr hlong)
  · exact IPv4.parse?_eq_some_iff

theorem textFaults_eq_nil_iff {α : Type} {read : List Char → Option α}
    {fault : String → ConfigFault} {text : Option String} :
    textFaults read fault text = [] ↔ ∀ t ∈ text,
      Text.trim t.toList = [] ∨ ∃ a, read (Text.trim t.toList) = some a := by
  cases text with
  | none => simp [textFaults]
  | some t => simp [textFaults, Option.isSome_iff_exists]

/-! ### Stores -/

theorem entryFaults_eq_nil_iff {earlier : List Retention} {r : Retention} :
    entryFaults earlier r = [] ↔ (∀ q ∈ earlier, q.channel ≠ r.channel) ∧ r.units ≠ 0 ∧
      (r.channel = .message → r.maxUnit ≤ Packet.maxPayload) := by
  rw [entryFaults, List.append_eq_nil_iff, List.append_eq_nil_iff, otherwise_eq_nil,
    otherwise_eq_nil, otherwise_eq_nil, and_assoc]

/-- No entry finds its channel when it looks back, if and only if no channel comes twice. -/
theorem nodup_channel_iff {list : List Retention} :
    (list.map Retention.channel).Nodup ↔
      ∀ (i : Nat) (hi : i < list.length), ∀ q ∈ list.take i, q.channel ≠ list[i].channel := by
  rw [List.Nodup, List.pairwise_map, List.pairwise_iff_getElem]
  constructor
  · intro h i hi q hq
    obtain ⟨j, hj, rfl⟩ := List.mem_take_iff_getElem.mp hq
    exact h j i (by omega) hi (by omega)
  · intro h j i hj hi hlt
    exact h i hi _ (List.mem_take_iff_getElem.mpr ⟨j, by omega, rfl⟩)

theorem storeFaults_eq_nil_iff {list : List Retention} :
    storeFaults list = [] ↔ (list.map Retention.channel).Nodup ∧
      ∀ r ∈ list, r.units ≠ 0 ∧ (r.channel = .message → r.maxUnit ≤ Packet.maxPayload) := by
  rw [storeFaults, List.flatMap_eq_nil_iff, nodup_channel_iff]
  simp only [entryFaults_eq_nil_iff]
  constructor
  · intro h
    refine ⟨fun i hi => (h (list[i], i) (List.mk_mem_zipIdx_iff_getElem?.mpr (by simp [hi]))).1,
      fun r hr => ?_⟩
    obtain ⟨i, hi, rfl⟩ := List.mem_iff_getElem.mp hr
    exact (h (list[i], i) (List.mk_mem_zipIdx_iff_getElem?.mpr (by simp [hi]))).2
  · rintro ⟨hchannels, hentries⟩ ⟨r, i⟩ hr
    obtain ⟨hi, rfl⟩ := List.getElem?_eq_some_iff.mp (List.mk_mem_zipIdx_iff_getElem?.mp hr)
    exact ⟨hchannels i hi, hentries _ (List.getElem_mem hi)⟩

/-! ### Validity -/

/-- What each part of a configuration must be like. -/
structure Input.Valid (input : Input) : Prop where
  version : input.version = 0 ∨ input.version = 1
  key : ∃ text, input.meeting.key = some text ∧ Key.Spelled (Text.trim text.toList)
  socket : input.meeting.socket ≠ some 0
  host : ∀ text ∈ input.meeting.host,
    Text.trim text.toList = [] ∨ ∃ ip : IPv4, Text.trim text.toList = ip.render.toList
  rendezvous : ∀ text ∈ input.meeting.rendezvous,
    Text.trim text.toList = [] ∨
      ∃ endpoint, Endpoint.parse? (Text.trim text.toList) = some endpoint
  channels : ∀ list ∈ input.retention, (list.map Retention.channel).Nodup
  units : ∀ list ∈ input.retention, ∀ r ∈ list, r.units ≠ 0
  messages : ∀ list ∈ input.retention, ∀ r ∈ list,
    r.channel = .message → r.maxUnit ≤ Packet.maxPayload

/-- **A configuration is valid exactly if there is nothing wrong with it.** -/
theorem Input.valid_iff {input : Input} : input.Valid ↔ input.faults = [] := by
  have hstores : storeFaults (input.retention.getD []) = [] ↔ ∀ list ∈ input.retention,
      (list.map Retention.channel).Nodup ∧
        ∀ r ∈ list, r.units ≠ 0 ∧ (r.channel = .message → r.maxUnit ≤ Packet.maxPayload) := by
    cases input.retention with
    | none => exact iff_of_true rfl nofun
    | some list => simp [storeFaults_eq_nil_iff]
  simp only [Input.faults, List.append_eq_nil_iff, otherwise_eq_nil, keyFaults_eq_nil_iff,
    textFaults_eq_nil_iff, readHost_eq_some_iff, hstores]
  constructor
  · intro h
    exact ⟨h.version, h.key, h.socket, h.host, h.rendezvous, fun list hlist =>
      ⟨h.channels list hlist, fun r hr => ⟨h.units list hlist r hr, h.messages list hlist r hr⟩⟩⟩
  · rintro ⟨hversion, hkey, hsocket, hhost, hrendezvous, hlist⟩
    exact ⟨hversion, hkey, hsocket, hhost, hrendezvous, fun list h => (hlist list h).1,
      fun list h r hr => ((hlist list h).2 r hr).1, fun list h r hr => ((hlist list h).2 r hr).2⟩

end Configuration

/-! ### New connections -/

namespace Connection

/-- Whatever connection the action makes keeps nothing yet. -/
def Bare (x : Action Network Connection) : Prop :=
  ∀ n c m, x n = (.ok c, m) → c.stores = {}

theorem Bare.bind {α : Type} {x : Action Network α} {f : α → Action Network Connection}
    (hf : ∀ a, Bare (f a)) : Bare (x >>= f) := by
  intro n c m h
  obtain ⟨a, k, -, hrest⟩ := Action.bind_eq_ok h
  exact hf a k c m hrest

theorem bare_finish (role : Role) (peer : Endpoint) (meeting : Configuration.Meeting) :
    Bare (finish role peer meeting) :=
  .bind fun _ => .bind fun _ n c m h => by
    cases h
    rfl

theorem bare_meet (role : Role) (plan : Rendezvous.Plan) (meeting : Configuration.Meeting) :
    Bare (meet role plan meeting) := by
  rw [meet_eq]
  exact .bind fun entry => .bind fun _ => bare_finish role entry.peer meeting

theorem bare_establish (role : Role) (meeting : Configuration.Meeting) :
    Bare (establish role meeting) := by
  unfold establish
  split
  · exact bare_meet _ _ meeting
  · rw [accept_eq]
    exact .bind fun caller => .bind fun _ => bare_finish .server caller meeting
  · intro n c m h
    cases h
  · exact bare_meet _ _ meeting
  · rw [connect_eq]
    exact .bind fun _ => bare_finish .client _ meeting

end Connection

namespace Configuration

/-! ### What can be relied on -/

/-- What a node relies on without checking it again. -/
structure Fit (config : Configuration) : Prop where
  version : config.version = 1
  socket : config.meeting.socket ≠ 0
  readTimeout : Time.millisecond ≤ config.meeting.readTimeout
  setupTimeout : Time.millisecond ≤ config.meeting.setupTimeout
  rendezvousTimeout : Time.millisecond ≤ config.meeting.rendezvousTimeout
  period : Time.millisecond ≤ config.reception.period
  ringSize : 1 ≤ config.reception.ringSize
  queueCapacity : 1 ≤ config.reception.queueCapacity
  /-- The stores can be registered where there are none yet, if their tables can be laid out. -/
  registers : ∀ l : Link, l.stores = {} →
    (Node.registerAll config.retention l).1 =
      if config.Storable then .ok () else .error .tableTooLarge
  /-- A node comes up then if its connection can be set up. -/
  opens : ∀ (role : Role) (n : Network) (c : Connection),
    (Connection.establish role config.meeting n).1 = .ok c →
      if config.Storable then ∃ c', (Node.openConnection role config n).1 = .ok c'
      else (Node.openConnection role config n).1 = .error (.ofFailure .tableTooLarge)

theorem version_of_checkVersion {version meant : Nat} (h : checkVersion version = .ok meant) :
    meant = 1 := by
  by_cases hzero : version = 0
  · rw [hzero] at h
    cases h
    rfl
  · unfold checkVersion at h
    simp only [hzero, if_false] at h
    split at h
    · rename_i hcurrent
      cases h
      exact hcurrent
    · cases h

theorem socket_of_checkSocket {given : Option UInt16} {socket : UInt16}
    (h : checkSocket given = .ok socket) : socket ≠ 0 := by
  unfold checkSocket at h
  split at h
  · cases h
    decide
  · cases h
  · rename_i hnonzero
    cases h
    exact fun hzero => hnonzero hzero

/-- A span that is written is at least a millisecond, and so is a default that is. -/
theorem millisecond_le_span (ms : Option Nat) {default : Nat} (h : Time.millisecond ≤ default) :
    Time.millisecond ≤ (ms.map someMilliseconds).getD default := by
  cases ms with
  | none => exact h
  | some ms => exact Nat.le_mul_of_pos_left _ (Nat.le_max_right ms 1)

/-- A connection that was set up keeps nothing yet, so its stores are all that can fail. -/
theorem openConnection_of_establish {input : Input} {config : Configuration}
    (hconfig : input.resolve = .ok config) {role : Role} {n : Network} {c : Connection}
    (h : (Connection.establish role config.meeting n).1 = .ok c) :
    if config.Storable then ∃ c', (Node.openConnection role config n).1 = .ok c'
    else (Node.openConnection role config n).1 = .error (.ofFailure .tableTooLarge) := by
  cases hestablish : Connection.establish role config.meeting n with
  | mk r m =>
    rw [hestablish] at h
    cases h
    have hbare := Connection.bare_establish role config.meeting n c m hestablish
    unfold Node.openConnection
    rw [hestablish]
    dsimp only
    rcases Node.registerAll_of_resolve hconfig (l := ⟨c, m⟩) hbare with
      ⟨hfits, sender, hrun, -⟩ | ⟨hlarge, sender, hrun⟩
    · rw [if_pos hfits, hrun]
      exact ⟨sender.connection, rfl⟩
    · rw [if_neg hlarge, hrun]

/-- **What is resolved is fit.** -/
theorem fit_of_resolve {input : Input} {config : Configuration}
    (h : input.resolve = .ok config) : config.Fit := by
  have hregisters (l : Link) (hl : l.stores = {}) := Node.fst_registerAll h hl
  have hopens (role : Role) (n : Network) (c : Connection)
      (hc : (Connection.establish role config.meeting n).1 = .ok c) :=
    openConnection_of_establish h hc
  unfold Input.resolve at h
  obtain ⟨version, hversion, h⟩ := bind_eq_ok h
  obtain ⟨key, -, h⟩ := bind_eq_ok h
  obtain ⟨socket, hsocket, h⟩ := bind_eq_ok h
  obtain ⟨host, -, h⟩ := bind_eq_ok h
  obtain ⟨rendezvous, -, h⟩ := bind_eq_ok h
  obtain ⟨retention, -, h⟩ := bind_eq_ok h
  cases h
  exact {
    version := version_of_checkVersion (mapError_eq_ok hversion)
    socket := socket_of_checkSocket (mapError_eq_ok hsocket)
    readTimeout := millisecond_le_span _ (Nat.le_mul_of_pos_left _ (by decide))
    setupTimeout := millisecond_le_span _ (Nat.le_mul_of_pos_left _ (by decide))
    rendezvousTimeout := millisecond_le_span _ (Nat.le_mul_of_pos_left _ (by decide))
    period := millisecond_le_span _ (Nat.le_mul_of_pos_left _ (by decide))
    ringSize := Nat.le_max_right _ _
    queueCapacity := Nat.le_max_right _ _
    registers := hregisters
    opens := hopens }

/--
**Validation is exact, and what passes it needs no other check but of the memory it takes.**
Whatever is written:

* it is resolved if and only if it is valid;
* it is refused with a failure if and only if that is the first of its faults, in the order of the
  version, the key, the socket number, the host, the rendezvous server and the stores, these entry
  by entry and for each the channel before the number and the size of its units;
* what it is resolved to is fit: its stores can be registered if their tables can be laid out, and
  otherwise registering them ends the program.
-/
theorem resolve_exact_and_sufficient (input : Input) :
    ((∃ config, input.resolve = .ok config) ↔ input.Valid) ∧
      (∀ e, input.resolve = .error e ↔
        ∃ fault, input.faults.head? = some fault ∧ e = .configuration fault) ∧
      ∀ config, input.resolve = .ok config → config.Fit := by
  have hreports := input.reports_resolve
  refine ⟨?_, fun e => ?_, fun config h => fit_of_resolve h⟩
  · rw [hreports.ok_iff, List.map_eq_nil_iff, Input.valid_iff]
  · rw [hreports.error_iff, List.head?_map, Option.map_eq_some_iff]
    simp only [eq_comm]

/-- The key is all that has to be written. -/
theorem key_alone_suffices :
    ∃ config, ({ meeting := { key := some "000102030405060708090a0b0c0d0e0f" } } : Input).resolve =
      .ok config ∧ config.Fit ∧ config.Storable := by
  obtain ⟨config, hconfig⟩ : ∃ config,
      ({ meeting := { key := some "000102030405060708090a0b0c0d0e0f" } } : Input).resolve =
        .ok config := ⟨_, rfl⟩
  refine ⟨config, hconfig, (resolve_exact_and_sufficient _).2.2 config hconfig, ?_⟩
  rw [Storable, retention_of_resolve hconfig rfl]
  decide

/-- A configuration with a store for `2 ^ 62` units. -/
def vastStore : Input where
  meeting := { key := some "000102030405060708090a0b0c0d0e0f" }
  retention := some [{ channel := .video, maxUnit := 1000, units := 0x4000000000000000 }]

/-- **A configuration can pass the check although no node comes up with it:** nothing bounds the
number of units from above. -/
theorem vast_store_ends_program :
    ∃ config, vastStore.resolve = .ok config ∧
      (∀ l : Link, l.stores = {} →
        (Node.registerAll config.retention l).1 = .error .tableTooLarge) ∧
      ∀ (role : Role) (n : Network) (c : Connection),
        (Connection.establish role config.meeting n).1 = .ok c →
          (Node.openConnection role config n).1 = .error (.ofFailure .tableTooLarge) := by
  obtain ⟨config, hconfig⟩ : ∃ config, vastStore.resolve = .ok config := ⟨_, rfl⟩
  have hlarge : ¬ config.Storable := by
    rw [Storable, retention_of_resolve hconfig rfl]
    decide
  refine ⟨config, hconfig, fun l hl => ?_, fun role n c hc => ?_⟩
  · rw [Node.fst_registerAll hconfig hl, if_neg hlarge]
  · have hopens := openConnection_of_establish hconfig hc
    rwa [if_neg hlarge] at hopens

/-- Each entry of the stores is judged by itself. -/
example :
    ({ version := 7, retention := some [⟨.message, 2000, 1⟩, ⟨.message, 1, 0⟩] } : Input).faults =
      [.unsupportedVersion 7, .keyMissing, .messageBufferTooLarge, .duplicateBuffer .message,
        .noBuffers] := by
  decide

end Configuration

end Framecast
