/-
The counters of a connection, and what they count.

What a connection does can be seen without its counters: the operating system takes
datagrams or refuses them, arrivals are handed over, and the program is told what became
of its requests.  An `Account` holds what was seen of some uses.  `Counted` says that the
counters moved as the account tells; each use is counted in this sense, and accounts join,
so a whole run is.

One counter is no count of what was seen.  A request is counted when its fragment is
found, before the fragment is sent, so it counts also if nothing is sent.
-/
import Framecast.Proofs.Connection.Closing
import Framecast.Proofs.Connection.Fates
import Framecast.Proofs.Network.Waits

namespace Framecast

namespace Link

open Authentication (sentSince meaning)

/-! ### What is seen of a connection -/

/-- What was seen of a connection. -/
structure Account where
  /-- The sealed packets that the operating system took. -/
  accepted : List Bytes := []
  /-- The fates of the packets that were to be sent. -/
  fates : List Fate := []
  /-- The sealed packets that the operating system took in answer to requests. -/
  answered : List Bytes := []
  /-- What the program was told of its requests. -/
  told : List (Except Failure Unit) := []
  /-- The datagrams that were handed over. -/
  heard : List Bytes := []

/-- What was seen first, and what was seen then. -/
def Account.append (a b : Account) : Account where
  accepted := a.accepted ++ b.accepted
  fates := a.fates ++ b.fates
  answered := a.answered ++ b.answered
  told := a.told ++ b.told
  heard := a.heard ++ b.heard

namespace Use

/-- The datagrams that the operating system takes from a use. -/
def sent (use : Use) (l : Link) : List Bytes :=
  sentSince (use.outside l.network) (use.run l).network

open Classical in
/-- The sealed packets among them. -/
noncomputable def accepted (use : Use) (l : Link) : List Bytes :=
  (use.sent l).filter fun d => ∃ p, Seals l.connection.key p d

/-- The fates of the packets that a use sends. -/
def fates : Use → Link → List Fate
  | send channel payload id, l => unitFates channel payload id l
  | control m, l =>
    unitFates .message m.encode l.connection.nextMessage
      (l.update fun c => { c with nextMessage := c.nextMessage + 1 })
  | packet p, l => [fate p l]
  | resend channel id index, l =>
    match (l.stores.find channel id index).1 with
    | .ok p => [fate p (l.lookUp channel id index)]
    | .error _ => []
  | _, _ => []

/-- Whether the use is a request for a fragment. -/
def isRequest : Use → Bool
  | resend .. => true
  | _ => false

/-- What the program is told of a request. -/
def told : Use → Link → List (Except Failure Unit)
  | resend channel id index, l => [(Link.resend channel id index l).1]
  | _, _ => []

/-- The datagrams that the network hands over for a use: those among the arrivals that are
gone after it. -/
def heard (use : Use) (l : Link) : List Bytes :=
  let before := (use.outside l.network).inbound
  let gone := before.length - (use.run l).network.inbound.length
  (before.take gone).filterMap Event.datagram?

/-- What is seen of a use. -/
noncomputable def account (use : Use) (l : Link) : Account where
  accepted := use.accepted l
  fates := use.fates l
  answered := if use.isRequest then use.accepted l else []
  told := use.told l
  heard := use.heard l

end Use

/-- What is seen of some uses in a row. -/
noncomputable def account : List Use → Link → Account
  | [], _ => {}
  | use :: rest, l => (use.account l).append (account rest (use.run l))

/-! ### What is counted -/

/-- The program is told that the fragment is no longer kept. -/
def isForgotten : Except Failure Unit → Bool
  | .error (.forgotten ..) => true
  | _ => false

/-- The program is told that the fragment was found but could not be sent. -/
def isWithheld : Except Failure Unit → Bool
  | .ok () => false
  | .error (.forgotten ..) => false
  | .error (.notRetained _) => false
  | .error _ => true

/-- The datagram is neither empty nor a challenge. -/
def isTraffic (d : Bytes) : Bool :=
  match meaning d with
  | .challenge _ => false
  | _ => !d.isEmpty

/-- What is read of the datagram is a packet sealed under the key. -/
def opens (key : Key) (d : Bytes) : Bool :=
  ((Sealed.unwrap? key (d.take Sealed.maxSize)).bind Packet.decode?).isSome

/-- The counters moved from `l` to `m` as the account tells. -/
structure Counted (l : Link) (a : Account) (m : Link) : Prop where
  packetsSent_eq : m.connection.counters.packetsSent =
    l.connection.counters.packetsSent + a.accepted.length
  bytesSent_eq : m.connection.counters.bytesSent =
    l.connection.counters.bytesSent + (a.accepted.map List.length).sum
  sendFailures_eq : m.connection.counters.sendFailures =
    l.connection.counters.sendFailures + a.fates.count .refused
  resent_eq : m.connection.counters.resent =
    l.connection.counters.resent + (a.answered.length + a.told.countP isWithheld)
  forgotten_eq : m.connection.counters.forgotten =
    l.connection.counters.forgotten + a.told.countP isForgotten
  packetsReceived_eq : m.connection.counters.packetsReceived =
    l.connection.counters.packetsReceived +
      a.heard.countP fun d => isTraffic d && opens l.connection.key d
  rejected_eq : m.connection.counters.rejected =
    l.connection.counters.rejected +
      a.heard.countP fun d => isTraffic d && !opens l.connection.key d
  accepted_eq : a.accepted = Fate.taken a.fates
  answered_sublist : a.answered.Sublist a.accepted
  key_eq : m.connection.key = l.connection.key

variable {l m k : Link} {a b : Account} {d : Bytes}

namespace Counted

theorem refl (l : Link) : l.Counted {} l :=
  ⟨rfl, rfl, rfl, rfl, rfl, rfl, rfl, rfl, .refl [], rfl⟩

theorem trans (h : l.Counted a m) (h' : m.Counted b k) : l.Counted (a.append b) k where
  packetsSent_eq := by
    rw [h'.packetsSent_eq, h.packetsSent_eq, Account.append, List.length_append, Nat.add_assoc]
  bytesSent_eq := by
    rw [h'.bytesSent_eq, h.bytesSent_eq, Account.append, List.map_append, List.sum_append,
      Nat.add_assoc]
  sendFailures_eq := by
    rw [h'.sendFailures_eq, h.sendFailures_eq, Account.append, List.count_append, Nat.add_assoc]
  resent_eq := by
    rw [h'.resent_eq, h.resent_eq, Account.append, List.length_append, List.countP_append]
    omega
  forgotten_eq := by
    rw [h'.forgotten_eq, h.forgotten_eq, Account.append, List.countP_append, Nat.add_assoc]
  packetsReceived_eq := by
    rw [h'.packetsReceived_eq, h.packetsReceived_eq, h.key_eq, Account.append,
      List.countP_append, Nat.add_assoc]
  rejected_eq := by
    rw [h'.rejected_eq, h.rejected_eq, h.key_eq, Account.append, List.countP_append,
      Nat.add_assoc]
  accepted_eq := by
    rw [Account.append, Fate.taken_append, h.accepted_eq, h'.accepted_eq]
  answered_sublist := h.answered_sublist.append h'.answered_sublist
  key_eq := h'.key_eq.trans h.key_eq

end Counted

/-! ### Uses that send, or do nothing of the kind -/

namespace Use

variable {use : Use} {fates : List Fate}

/-- What is sealed and goes out was accepted. -/
theorem accepted_of_attempts (hnetwork : k.network = use.outside l.network)
    (hkey : k.connection.key = l.connection.key) (h : k.Attempts fates (use.run l)) :
    use.accepted l = Fate.taken fates := by
  unfold accepted sent
  rw [← hnetwork, h.sends.sent, List.filter_eq_self]
  intro d hd
  simp only [decide_eq_true_eq]
  rw [← hkey]
  exact h.seals d hd

/-- What is handed over is what is gone afterwards. -/
theorem heard_of_arrivals {events : List Event}
    (h : (use.outside l.network).inbound = events ++ (use.run l).network.inbound) :
    use.heard l = events.filterMap Event.datagram? := by
  unfold heard
  dsimp only
  rw [h, List.length_append, Nat.add_sub_cancel, List.take_left]

/-- A use is counted that sends packets, and before that counts no more than its look-up. -/
theorem counted_of_look_up (hnetwork : k.network = use.outside l.network)
    (hkey : k.connection.key = l.connection.key) (h : k.Attempts (use.fates l) (use.run l))
    (hresent : k.connection.counters.resent = l.connection.counters.resent +
      ((if use.isRequest then Fate.taken (use.fates l) else []).length +
        (use.told l).countP isWithheld))
    (hforgotten : k.connection.counters.forgotten =
      l.connection.counters.forgotten + (use.told l).countP isForgotten)
    (hsame : k.connection.counters = { l.connection.counters with
      resent := k.connection.counters.resent, forgotten := k.connection.counters.forgotten }) :
    l.Counted (use.account l) (use.run l) := by
  have haccepted := accepted_of_attempts hnetwork hkey h
  have harrives : (use.outside l.network).inbound = [] ++ (use.run l).network.inbound := by
    rw [h.inbound_eq, hnetwork, List.nil_append]
  have hheard : use.heard l = [] := heard_of_arrivals harrives
  unfold account
  rw [haccepted, hheard]
  refine ⟨?_, ?_, ?_, ?_, ?_, ?_, ?_, rfl, ?_, h.key_eq.trans hkey⟩
  · rw [h.counters_eq, hsame]
    rfl
  · rw [h.counters_eq, hsame]
    rfl
  · rw [h.counters_eq, hsame]
    rfl
  · rw [h.counters_eq]
    exact hresent
  · rw [h.counters_eq]
    exact hforgotten
  · rw [h.counters_eq, hsame]
    rfl
  · rw [h.counters_eq, hsame]
    rfl
  · dsimp only
    split
    · exact .refl _
    · exact List.nil_sublist _

/-- A use is counted that does nothing but send packets. -/
theorem counted_of_attempts (hrequest : use.isRequest = false) (htold : use.told l = [])
    (h : Attempts { l with network := use.outside l.network } (use.fates l) (use.run l)) :
    l.Counted (use.account l) (use.run l) := by
  refine counted_of_look_up (k := { l with network := use.outside l.network }) rfl rfl h ?_ ?_ rfl
  · rw [hrequest, htold]
    rfl
  · rw [htold]
    rfl

/-- So is one that changes neither the counters nor the network. -/
theorem counted_of_idle (hrequest : use.isRequest = false) (htold : use.told l = [])
    (hfates : use.fates l = []) (hnetwork : (use.run l).network = use.outside l.network)
    (hcounters : (use.run l).connection.counters = l.connection.counters)
    (hkey : (use.run l).connection.key = l.connection.key) :
    l.Counted (use.account l) (use.run l) := by
  refine counted_of_attempts hrequest htold ?_
  rw [hfates]
  refine ⟨?_, List.forall_mem_nil _, hcounters, hkey, ?_⟩
  · rw [hnetwork]
    exact .refl _
  · rw [hnetwork]

end Use

/-! ### Requests -/

/-- What was found and sent is accepted, or its sender is told that it was not. -/
theorem Fate.Tells.withheld {fate : Fate} {r : Except Failure Unit} (h : fate.Tells r) :
    1 = (taken [fate]).length + [r].countP isWithheld ∧ [r].countP isForgotten = 0 := by
  cases fate with
  | accepted d =>
      rw [h]
      exact ⟨rfl, rfl⟩
  | refused =>
      obtain ⟨errno, rfl⟩ := h
      exact ⟨rfl, rfl⟩
  | unsealed =>
      rcases h with rfl | ⟨size, rfl⟩ | rfl <;> exact ⟨rfl, rfl⟩

/-- **A request is counted:** as resent once its fragment is found, and as forgotten if it
is not kept any more. -/
theorem counted_resend (channel : Channel) (id : Int32) (index : UInt16) (l : Link) :
    l.Counted ((Use.resend channel id index).account l) ((Use.resend channel id index).run l) := by
  have htold : (Use.resend channel id index).told l = [(resend channel id index l).1] := rfl
  have hrun : (Use.resend channel id index).run l = (resend channel id index l).2 := rfl
  have hlost {e : Failure} (hfind : (l.stores.find channel id index).1 = .error e) :
      (Use.resend channel id index).fates l = [] := by
    rw [Use.fates, hfind]
  rcases resend_cases channel id index l with ⟨p, hfind, hsend⟩ | ⟨hfind, hsend⟩ | ⟨hfind, hsend⟩
  · have hfates : (Use.resend channel id index).fates l =
        [fate p (l.lookUp channel id index)] := by
      rw [Use.fates, hfind]
    obtain ⟨hattempts, htells⟩ := attempts_sendPacket p ((l.lookUp channel id index).count fun c =>
      { c with resent := c.resent + 1 })
    rw [fate_count] at hattempts htells
    obtain ⟨hwithheld, hkept⟩ := htells.withheld
    refine Use.counted_of_look_up (k := (l.lookUp channel id index).count fun c =>
      { c with resent := c.resent + 1 }) rfl rfl ?_ ?_ ?_ rfl
    · rw [hfates, hrun, hsend]
      exact hattempts
    · rw [hfates, htold, hsend]
      exact congrArg (l.connection.counters.resent + ·) hwithheld
    · rw [htold, hsend, hkept]
      rfl
  · refine Use.counted_of_look_up (k := (l.lookUp channel id index).count fun c =>
      { c with forgotten := c.forgotten + 1 }) rfl rfl ?_ ?_ ?_ rfl
    · rw [hlost hfind, hrun, hsend]
      exact .refl _
    · rw [hlost hfind, htold, hsend]
      rfl
    · rw [htold, hsend]
      rfl
  · refine Use.counted_of_look_up (k := l.lookUp channel id index) rfl rfl ?_ ?_ ?_ rfl
    · rw [hlost hfind, hrun, hsend]
      exact .refl _
    · rw [hlost hfind, htold, hsend]
      rfl
    · rw [htold, hsend]
      rfl

/-! ### Reads -/

theorem isTraffic_eq_false :
    isTraffic d = false ↔ d.isEmpty = true ∨ ∃ nonce, meaning d = .challenge nonce := by
  unfold isTraffic
  cases hmeans : meaning d with
  | challenge nonce => simp
  | proof code => simp
  | noise => simp

/-- Cutting a datagram does not change whether it is traffic. -/
theorem isTraffic_take (d : Bytes) : isTraffic (d.take Sealed.maxSize) = isTraffic d := by
  have hmeaning : meaning (d.take Sealed.maxSize) = meaning d :=
    Authentication.meaning_take_of_le (by decide) d
  have hempty : (d.take Sealed.maxSize).isEmpty = d.isEmpty := by cases d <;> rfl
  unfold isTraffic
  rw [hmeaning, hempty]

/-- A proof is too short for a sealed packet. -/
theorem not_seals_proof (key other : Key) (nonce : Bytes) (p : Packet) :
    ¬ Seals key p (Authentication.proof other nonce) := by
  intro hseals
  have hlength := length_of_seals hseals
  have hheader : Packet.headerSize = 14 := rfl
  have hoverhead : Sealed.overhead = 28 := rfl
  have hsize : Authentication.codeSize = 32 := rfl
  rw [Authentication.proof, List.length_cons, Authentication.length_code, Packet.size] at hlength
  omega

/-- A late answer is a proof, if it goes out, and leaves the arrivals alone. -/
theorem sends_answerLate (key : Key) (d : Bytes) (n : Network) :
    (∃ out, n.Sends out (Authentication.answerLate key d n).2 ∧
        ∀ answer ∈ out, ∃ nonce, answer = Authentication.proof key nonce) ∧
      (Authentication.answerLate key d n).2.inbound = n.inbound := by
  have hsilent : ∃ out, n.Sends out n ∧
      ∀ answer ∈ out, ∃ nonce, answer = Authentication.proof key nonce :=
    ⟨[], .refl n, List.forall_mem_nil _⟩
  unfold Authentication.answerLate
  cases meaning d with
  | proof code => exact ⟨hsilent, rfl⟩
  | noise => exact ⟨hsilent, rfl⟩
  | challenge nonce =>
      have hinbound : (n.send (Authentication.proof key nonce)).2.inbound = n.inbound :=
        n.inbound_attempt _
      dsimp only
      rw [Action.bind_apply, Authentication.answer, Action.ofCall]
      rcases n.send_cases (Authentication.proof key nonce) with
        ⟨m, hsend, hm, -⟩ | ⟨errno, m, hsend, hm, -⟩
      · rw [hsend] at hinbound ⊢
        refine ⟨⟨_, hm, fun answer hanswer => ⟨nonce, ?_⟩⟩, hinbound⟩
        exact List.mem_singleton.mp hanswer
      · rw [hsend] at hinbound ⊢
        exact ⟨⟨_, hm, List.forall_mem_nil _⟩, hinbound⟩

/-- All that comes of a datagram that is no traffic is a late answer. -/
theorem afterDatagram_of_not_traffic (h : isTraffic d = false) :
    (afterDatagram d l).2 =
      { l with network := (Authentication.answerLate l.connection.key d l.network).2 } := by
  have hread : Action.read (fun l : Link => l.connection.key) l = (.ok l.connection.key, l) := rfl
  unfold afterDatagram
  by_cases hempty : d.isEmpty = true
  · rw [if_pos hempty, List.isEmpty_iff.mp hempty]
    rfl
  · obtain ⟨nonce, hmeans⟩ := (isTraffic_eq_false.mp h).resolve_left hempty
    rw [if_neg hempty, Action.bind_of_ok hread, Action.bind_apply, onNetwork,
      Authentication.answerLate, hmeans]
    dsimp only
    rw [Action.bind_apply]
    rcases Authentication.answer l.connection.key nonce l.network with ⟨_ | _, n⟩ <;> rfl

/-- The link came from `l` to `m` by a read that was handed these datagrams. -/
structure Hears (l : Link) (heard : List Bytes) (m : Link) : Prop where
  sends : ∃ out, l.network.Sends out m.network ∧ ∀ d ∈ out, ∀ p, ¬ Seals l.connection.key p d
  takes : ∃ events, l.network.inbound = events ++ m.network.inbound ∧
    events.filterMap Event.datagram? = heard
  packetsReceived_eq : m.connection.counters.packetsReceived =
    l.connection.counters.packetsReceived +
      heard.countP fun d => isTraffic d && opens l.connection.key d
  rejected_eq : m.connection.counters.rejected =
    l.connection.counters.rejected +
      heard.countP fun d => isTraffic d && !opens l.connection.key d
  same : m.connection.counters = { l.connection.counters with
    packetsReceived := m.connection.counters.packetsReceived
    bytesReceived := m.connection.counters.bytesReceived
    rejected := m.connection.counters.rejected
    readTimeouts := m.connection.counters.readTimeouts }
  key_eq : m.connection.key = l.connection.key

/-- A receive call without a datagram counts at most as waiting in vain. -/
theorem hears_nothing {errno : Errno} {n : Network}
    (hreceive : l.network.receive l.connection.readTimeout Sealed.maxSize = (.error errno, n))
    (htrace : n.trace = l.network.trace)
    (htakes : ∃ events, l.network.inbound = events ++ n.inbound ∧
      events.filterMap Event.datagram? = []) : l.Hears [] (receiveOne l).2 := by
  unfold receiveOne
  rw [hreceive]
  dsimp only
  have hsends : ∃ out, l.network.Sends out n ∧ ∀ d ∈ out, ∀ p, ¬ Seals l.connection.key p d :=
    ⟨[], .of_trace_eq htrace, List.forall_mem_nil _⟩
  unfold afterError
  split
  · exact ⟨hsends, htakes, rfl, rfl, rfl, rfl⟩
  · split <;> exact ⟨hsends, htakes, rfl, rfl, rfl, rfl⟩

/-- A datagram counts as a packet if it opens, as rejected if it does not, and as neither if
it is no traffic. -/
theorem hears_datagram {sender : Endpoint} {delay : Nat} {later : List Event}
    (harrives : l.network.inbound = ⟨.datagram d sender, delay⟩ :: later) :
    l.Hears [d] (receiveOne l).2 := by
  have hreceive : l.network.receive l.connection.readTimeout Sealed.maxSize =
      (.ok (d.take Sealed.maxSize, sender), l.network.returned later delay) := by
    rw [Network.receive, harrives]
  have htakes : ∃ events, l.network.inbound = events ++ later ∧
      events.filterMap Event.datagram? = [d] := ⟨[_], harrives, rfl⟩
  unfold receiveOne
  rw [hreceive]
  dsimp only
  cases htraffic : isTraffic d with
  | false =>
      rw [afterDatagram_of_not_traffic (by rw [isTraffic_take, htraffic])]
      obtain ⟨⟨out, hsends, hproofs⟩, hinbound⟩ := sends_answerLate l.connection.key
        (d.take Sealed.maxSize) (l.network.returned later delay)
      refine ⟨⟨out, hsends.after rfl, fun answer hanswer p => ?_⟩, ?_, ?_, ?_, rfl, rfl⟩
      · obtain ⟨nonce, rfl⟩ := hproofs answer hanswer
        exact not_seals_proof _ _ _ p
      · dsimp only
        rw [hinbound]
        exact htakes
      · rw [List.countP_singleton, htraffic]
        rfl
      · rw [List.countP_singleton, htraffic]
        rfl
  | true =>
      have hcut : ¬ isTraffic (d.take Sealed.maxSize) = false := by
        simp [isTraffic_take, htraffic]
      rw [isTraffic_eq_false, not_or, not_exists, Bool.not_eq_true] at hcut
      rw [afterDatagram_of_other hcut.1 hcut.2]
      have hsends : ∃ out, l.network.Sends out (l.network.returned later delay) ∧
          ∀ d ∈ out, ∀ p, ¬ Seals l.connection.key p d :=
        ⟨[], .of_trace_eq rfl, List.forall_mem_nil _⟩
      unfold accept
      cases hopen : (Sealed.unwrap? l.connection.key (d.take Sealed.maxSize)).bind Packet.decode? with
      | none =>
          have hopens : opens l.connection.key d = false := by rw [opens, hopen]; rfl
          refine ⟨hsends, htakes, ?_, ?_, rfl, rfl⟩
          · rw [List.countP_singleton, htraffic, hopens]
            rfl
          · rw [List.countP_singleton, htraffic, hopens]
            rfl
      | some p =>
          have hopens : opens l.connection.key d = true := by rw [opens, hopen]; rfl
          refine ⟨hsends, htakes, ?_, ?_, rfl, rfl⟩
          · rw [List.countP_singleton, htraffic, hopens]
            rfl
          · rw [List.countP_singleton, htraffic, hopens]
            rfl

/-- **What a receive call counts** is what it was handed. -/
theorem hears_receiveOne (l : Link) : ∃ heard, l.Hears heard (receiveOne l).2 := by
  cases harrives : l.network.inbound with
  | nil =>
      have hreceive : l.network.receive l.connection.readTimeout Sealed.maxSize =
          (.error .again, l.network.returned [] l.connection.readTimeout) := by
        rw [Network.receive, harrives]
      exact ⟨[], hears_nothing hreceive rfl ⟨[], harrives, rfl⟩⟩
  | cons event later =>
      obtain ⟨arrival, delay⟩ := event
      cases arrival with
      | datagram d sender => exact ⟨[d], hears_datagram harrives⟩
      | failure errno =>
          have hreceive : l.network.receive l.connection.readTimeout Sealed.maxSize =
              (.error errno, l.network.returned later delay) := by
            rw [Network.receive, harrives]
          exact ⟨[], hears_nothing hreceive rfl ⟨[_], harrives, rfl⟩⟩
      | silence =>
          have hreceive : l.network.receive l.connection.readTimeout Sealed.maxSize =
              (.error .again, l.network.returned later l.connection.readTimeout) := by
            rw [Network.receive, harrives]
          exact ⟨[], hears_nothing hreceive rfl ⟨[_], harrives, rfl⟩⟩

/-- A read is counted that was handed these datagrams. -/
theorem counted_of_hears {heard : List Bytes} (h : l.Hears heard (Use.read.run l)) :
    l.Counted (Use.read.account l) (Use.read.run l) := by
  obtain ⟨out, hsends, hunsealed⟩ := h.sends
  have haccepted : Use.read.accepted l = [] := by
    have hsent : Use.read.sent l = out := hsends.sent
    unfold Use.accepted
    rw [hsent, List.filter_eq_nil_iff]
    intro d hd
    simp only [decide_eq_true_eq]
    rintro ⟨p, hseals⟩
    exact hunsealed d hd p hseals
  have hheard : Use.read.heard l = heard := by
    obtain ⟨events, harrives, hdatagrams⟩ := h.takes
    rw [← hdatagrams]
    exact Use.heard_of_arrivals harrives
  unfold Use.account
  rw [haccepted, hheard]
  refine ⟨?_, ?_, ?_, ?_, ?_, h.packetsReceived_eq, h.rejected_eq, rfl, .refl [], h.key_eq⟩ <;>
    rw [h.same] <;> rfl

/-- A read is counted. -/
theorem counted_read (l : Link) : l.Counted (Use.read.account l) (Use.read.run l) := by
  have hidle (h : (readPacket l).2 = l) : l.Counted (Use.read.account l) (Use.read.run l) := by
    have hrun : Use.read.run l = l := h
    exact Use.counted_of_idle rfl rfl rfl (by rw [hrun]; rfl) (by rw [hrun]) (by rw [hrun])
  by_cases hclosed : l.isClosed = true
  · exact hidle (by rw [readPacket_of_closed hclosed])
  have hopen : l.isClosed = false := by simpa using hclosed
  by_cases hleased : l.connection.leased = true
  · exact hidle (by rw [readPacket_of_leased hopen hleased])
  have hfree : l.connection.leased = false := by simpa using hleased
  obtain ⟨heard, h⟩ := hears_receiveOne l
  -- The lease is given out or given back, which is not counted.
  have hlease (leased : Bool) :
      l.Hears heard ((receiveOne l).2.update fun c => { c with leased }) :=
    ⟨h.sends, h.takes, h.packetsReceived_eq, h.rejected_eq, h.same, h.key_eq⟩
  have hread : l.Hears heard (Use.read.run l) := by
    rw [Use.run, readPacket_of_free hopen hfree]
    rcases hone : receiveOne l with ⟨_ | found, m⟩
    · rw [hone] at h
      exact h
    · rw [hone] at hlease
      exact hlease found.isSome
  exact counted_of_hears hread

/-! ### Runs -/

/-- **Each use is counted.** -/
theorem counted_run (use : Use) (l : Link) : l.Counted (use.account l) (use.run l) := by
  cases use with
  | send channel payload id =>
      exact Use.counted_of_attempts rfl rfl (attempts_sendUnit channel payload id l)
  | control m =>
      exact Use.counted_of_attempts rfl rfl ((attempts_sendUnit .message m.encode
        l.connection.nextMessage _).of_same rfl rfl rfl)
  | packet p => exact Use.counted_of_attempts rfl rfl (attempts_sendPacket p l).1
  | resend channel id index => exact counted_resend channel id index l
  | register channel maxUnit units =>
      refine Use.counted_of_idle rfl rfl rfl ?_ ?_ ?_ <;>
      · rw [Use.run]
        unfold Link.register
        split <;> rfl
  | settings burst fec =>
      refine Use.counted_of_idle rfl rfl rfl ?_ ?_ ?_ <;>
      · rw [Use.run]
        unfold applySettings
        split <;> rfl
  | read => exact counted_read l
  | release => exact Use.counted_of_idle rfl rfl rfl rfl rfl rfl
  | close => exact Use.counted_of_idle rfl rfl rfl rfl rfl rfl
  | elsewhere network => exact Use.counted_of_idle rfl rfl rfl rfl rfl rfl

/-- **A run of uses is counted.** -/
theorem counted_runAll (uses : List Use) (l : Link) :
    l.Counted (account uses l) (Use.runAll uses l) := by
  induction uses generalizing l with
  | nil => exact .refl l
  | cons use rest ih => exact (counted_run use l).trans (ih (use.run l))

/--
**The counters tell what was seen.**  Set a connection up and use it in any way, on any
networks.  Then, of all that was seen since,

* `packetsSent` and `bytesSent` are the number and the length of the sealed packets that
  the operating system took, `sendFailures` is the number of those it refused to the last;
* `forgotten` is the number of requests that were told that their fragment is no longer
  kept;
* every datagram that is neither empty nor a challenge is counted once, by
  `packetsReceived` if it is a packet sealed under the key, and by `rejected` if not.

Only `resent` tells something else: it is the number of sealed packets taken in answer to
requests, and beyond that of the requests whose fragment was found but could not be sent.
So it is what its name says exactly if there was no such request.
-/
theorem counters_tell_what_was_seen (role : Role) (peer : Endpoint)
    (meeting : Configuration.Meeting) (now : Int) (network : Network) (uses : List Use) :
    let l : Link := { connection := .established role peer meeting now, network }
    let a := account uses l
    let c := (Use.runAll uses l).connection.counters
    c.packetsSent = a.accepted.length ∧
      c.bytesSent = (a.accepted.map List.length).sum ∧
      a.accepted = Fate.taken a.fates ∧
      c.sendFailures = a.fates.count .refused ∧
      c.forgotten = a.told.countP isForgotten ∧
      c.packetsReceived = a.heard.countP (fun d => isTraffic d && opens meeting.key d) ∧
      c.rejected = a.heard.countP (fun d => isTraffic d && !opens meeting.key d) ∧
      c.packetsReceived + c.rejected = a.heard.countP isTraffic ∧
      a.answered.Sublist a.accepted ∧
      c.resent = a.answered.length + a.told.countP isWithheld ∧
      (c.resent = a.answered.length ↔ ∀ r ∈ a.told, isWithheld r = false) ∧
      ((∀ r ∈ a.told, isWithheld r = false) → c.resent ≤ c.packetsSent) := by
  intro l a c
  have h : l.Counted a (Use.runAll uses l) := counted_runAll uses l
  have hsent : c.packetsSent = a.accepted.length := h.packetsSent_eq.trans (Nat.zero_add _)
  have hresent : c.resent = a.answered.length + a.told.countP isWithheld :=
    h.resent_eq.trans (Nat.zero_add _)
  have hreceived : c.packetsReceived = a.heard.countP fun d => isTraffic d && opens meeting.key d :=
    h.packetsReceived_eq.trans (Nat.zero_add _)
  have hrejected : c.rejected = a.heard.countP fun d => isTraffic d && !opens meeting.key d :=
    h.rejected_eq.trans (Nat.zero_add _)
  have hnone : a.told.countP isWithheld = 0 ↔ ∀ r ∈ a.told, isWithheld r = false := by
    simp only [List.countP_eq_zero, Bool.not_eq_true]
  have hsome := h.answered_sublist.length_le
  refine ⟨hsent, h.bytesSent_eq.trans (Nat.zero_add _), h.accepted_eq,
    h.sendFailures_eq.trans (Nat.zero_add _), h.forgotten_eq.trans (Nat.zero_add _), hreceived,
    hrejected, ?_, h.answered_sublist, hresent, ?_, ?_⟩
  · rw [hreceived, hrejected, List.countP_eq_countP_filter_add _ isTraffic (opens meeting.key),
      List.countP_filter, List.countP_filter]
  · rw [← hnone]
    omega
  · rw [← hnone]
    omega

/-- A viewer keeps a byte and is asked for it, on a network that refuses both sends. -/
theorem refused_answer_is_counted :
    let l : Link :=
      { connection := .established .client (.v4 .unspecified 0) { key := .constant 1 } 0
        network := { outbound := [some .connectionRefused, some .connectionRefused] } }
    let uses : List Use := [.register .video 2000 4, .send .video [5] 7, .resend .video 7 0]
    let c := (Use.runAll uses l).connection.counters
    (account uses l).answered = [] ∧ c.resent = 1 ∧ c.packetsSent = 0 := by
  intro l uses c
  exact ⟨rfl, rfl, rfl⟩

end Link

end Framecast
