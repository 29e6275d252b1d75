import SecureExec.Socket.Routing
import SecureExec.Socket.Stream

/-!
# Socket — Datagrams — queues of whole datagrams

`sendTo` and the host's pump put a datagram at the end of a socket's queue, `recvFrom` takes the
first one.

* `SendsTo`: whom a call sends what, by the addresses that the sockets have.
* `Arrives`: of what is sent to a socket all arrives but what finds the queue full.
* `Passes`: what was taken and what is queued is what arrived, in order, each cut to what was
  asked for.
* `datagrams_in_order`: so it is for every socket in every run in which the map of bound addresses
  names the sockets that have the address which is sent to.
* `datagrams_lost`: a socket keeps its address, and another one takes its entry away.
-/

namespace SecureExec.Socket
open SecureExec Kernel SocketTable Prog

namespace SocketTable

variable {t : SocketTable} {id : Nat} {d : UdpDatagram}

/-! ### Calls -/

/-- A call of `sendTo` or `recvFrom`, or a turn of the pump. -/
inductive DatagramCall where
  | sendTo (socketId : Nat) (data : ByteArray8) (destAddr : SockAddr)
    (check : Option NetworkDecision)
  | recvFrom (socketId maxBytes : Nat) (flags : Flags)
  | pumped (socketId host : Nat) (d : UdpDatagram)

/-- The call, and the datagram it returns. -/
def DatagramCall.run : DatagramCall → Sock (Option UdpDatagram)
  | .sendTo socketId data destAddr check =>
    (fun _ => none) <$> SocketTable.sendTo socketId data destAddr check
  | .recvFrom socketId maxBytes flags => SocketTable.recvFrom socketId maxBytes flags
  | .pumped socketId host d => (fun _ => none) <$> SocketTable.udpPumped socketId host d

/-- The table after the calls; some of them may be rejected. -/
def afterCalls (t : SocketTable) (calls : List DatagramCall) : SocketTable :=
  calls.foldl (fun t c => (c.run.exec t).2) t

abbrev queue (t : SocketTable) (id : Nat) : List UdpDatagram := (t.objs id).datagramQueue

/-- The socket that the call finds for a datagram, and the datagram. -/
def DatagramCall.sends (t : SocketTable) : DatagramCall → Option (Nat × UdpDatagram)
  | .sendTo socketId data destAddr _ =>
    if t.has socketId ∧ (t.objs socketId).type = SOCK_DGRAM ∧ data.length ≤ MAX_DATAGRAM_SIZE then
      (t.findBoundUdp destAddr).map fun target =>
        (target, ⟨data, getUdpSourceAddr (t.objs socketId) destAddr⟩)
    else none
  | .recvFrom _ _ _ => none
  | .pumped socketId _ d => some (socketId, d)

/-- What the call puts into the queue of the socket. -/
def DatagramCall.arrives (id : Nat) (t : SocketTable) (c : DatagramCall) : List UdpDatagram :=
  match c.sends t with
  | some (target, d) =>
    if target = id ∧ (t.queue id).length < MAX_UDP_QUEUE_DEPTH then [d] else []
  | none => []

/-- What the call takes from the socket, and the number of bytes it asked for. -/
def DatagramCall.takes (id : Nat) (t : SocketTable) : DatagramCall → List (Nat × UdpDatagram)
  | .recvFrom socketId maxBytes flags =>
    match ((SocketTable.recvFrom socketId maxBytes flags).exec t).1 with
    | .ok (some d) => if socketId = id ∧ ¬ flags.has MSG_PEEK then [(maxBytes, d)] else []
    | _ => []
  | _ => []

/-- What a run of calls sends or takes, one after another. -/
def along {α : Type} (f : SocketTable → DatagramCall → List α) :
    SocketTable → List DatagramCall → List α
  | _, [] => []
  | t, c :: calls => f t c ++ along f (c.run.exec t).2 calls

/-- The addresses of sockets that get what is sent to an address: the first that a socket has. -/
def serving : SockAddr → List SockAddr
  | .inet host port => [.inet host port, .inet "0.0.0.0" port, .inet "::" port]
  | .unix path => [.unix path]

/-- A datagram socket with this address. -/
def Has (t : SocketTable) (a : SockAddr) (id : Nat) : Prop :=
  t.has id = true ∧ (t.objs id).type = SOCK_DGRAM ∧ (t.objs id).localAddr = some a

/-- The socket has the first of the addresses that one has. -/
def HasFirst (t : SocketTable) (id : Nat) : List SockAddr → Prop
  | [] => False
  | a :: as => t.Has a id ∨ (∀ i, ¬ t.Has a i) ∧ t.HasFirst id as

/-- The call sends the datagram to the socket, from an address of the sender. -/
inductive DatagramCall.SendsTo (t : SocketTable) (id : Nat) : DatagramCall → UdpDatagram → Prop where
  | sendTo {socketId : Nat} {data : ByteArray8} {destAddr src : SockAddr}
      {check : Option NetworkDecision} (live : t.has socketId = true)
      (type : (t.objs socketId).type = SOCK_DGRAM) (size : data.length ≤ MAX_DATAGRAM_SIZE)
      (dest : t.HasFirst id (serving destAddr))
      (source : ∀ a, (t.objs socketId).localAddr = some a → Serves a src) :
      SendsTo t id (.sendTo socketId data destAddr check) ⟨data, src⟩
  | pumped {host : Nat} {d : UdpDatagram} : SendsTo t id (.pumped id host d) d

/-- What arrives at the socket of what the calls send to it. -/
inductive Arrives (id : Nat) : SocketTable → List DatagramCall → List UdpDatagram → Prop where
  | nil {t : SocketTable} : Arrives id t [] []
  | sent {t : SocketTable} {c : DatagramCall} {calls : List DatagramCall} {d : UdpDatagram}
      {arrived : List UdpDatagram} (h : c.SendsTo t id d)
      (rest : Arrives id (c.run.exec t).2 calls arrived) : Arrives id t (c :: calls) (d :: arrived)
  | dropped {t : SocketTable} {c : DatagramCall} {calls : List DatagramCall} {d : UdpDatagram}
      {arrived : List UdpDatagram} (h : c.SendsTo t id d)
      (full : MAX_UDP_QUEUE_DEPTH ≤ (t.queue id).length)
      (rest : Arrives id (c.run.exec t).2 calls arrived) : Arrives id t (c :: calls) arrived
  | other {t : SocketTable} {c : DatagramCall} {calls : List DatagramCall}
      {arrived : List UdpDatagram} (h : ∀ d, ¬ c.SendsTo t id d)
      (rest : Arrives id (c.run.exec t).2 calls arrived) : Arrives id t (c :: calls) arrived

/-- The entry of an address names the datagram sockets that have it; for a socket with none of the
first addresses, those of the others do. -/
def entriesRight (t : SocketTable) : List SockAddr → Bool
  | [] => true
  | a :: as =>
    (t.sockets.all fun id => (t.objs id).type != SOCK_DGRAM ||
      (t.udpBindings.get (addrKey a) == some id) == ((t.objs id).localAddr == some a)) &&
    ((t.sockets.any fun id => (t.objs id).type == SOCK_DGRAM && (t.objs id).localAddr == some a) ||
      t.entriesRight as)

def DatagramCall.entriesRight (t : SocketTable) : DatagramCall → Bool
  | .sendTo _ _ destAddr _ => t.entriesRight (serving destAddr)
  | _ => true

/-- Each datagram is sent to an address whose entries are right. -/
def entriesRightAlong : SocketTable → List DatagramCall → Bool
  | _, [] => true
  | t, c :: calls => c.entriesRight t && entriesRightAlong (c.run.exec t).2 calls

/-- A datagram, whole or cut to its first bytes. -/
def cut (d : UdpDatagram) (r : Nat × UdpDatagram) : Prop := r.2 = ⟨d.data.take r.1, d.srcAddr⟩

/-- Between two tables the datagrams arrived at the socket, and those were taken. -/
structure Passes (t t' : SocketTable) (id : Nat) (arrived : List UdpDatagram)
    (taken : List (Nat × UdpDatagram)) : Prop where
  inOrder : ∃ first, first ++ t'.queue id = t.queue id ++ arrived ∧ List.Forall₂ cut first taken
  bounded : (t'.queue id).length ≤ max MAX_UDP_QUEUE_DEPTH (t.queue id).length

/-- What `recvFrom` returns: the first datagram, which stays when it is only looked at, or `null`. -/
structure Receives (t : SocketTable) (id maxBytes : Nat) (flags : Flags) : Prop where
  first : ∀ d t', (recvFrom id maxBytes flags).exec t = (.ok (some d), t') →
    ∃ d' rest, t.queue id = d' :: rest ∧ cut d' (maxBytes, d) ∧ (flags.has MSG_PEEK → t' = t)
  empty : ∀ t', (recvFrom id maxBytes flags).exec t = (.ok none, t') → t.queue id = []

/-! ### One call -/

variable (t)

theorem queue_pushDatagram (target : Nat) (d : UdpDatagram) (id : Nat) :
    (t.pushDatagram target d).queue id = t.queue id ++ if target = id then [d] else [] := by
  rw [queue, pushDatagram, wakeReader_field _ target id (·.datagramQueue) fun _ _ => rfl]
  split
  · rename_i h
    rw [h, modify_objs_self]
  · rename_i h
    rw [modify_objs_of_ne t (Ne.symm h), List.append_nil]

/-- The datagram is queued, unless there is none or the queue is full. -/
def offer (t : SocketTable) : Option (Nat × UdpDatagram) → SocketTable
  | some (target, d) =>
    if MAX_UDP_QUEUE_DEPTH ≤ (t.queue target).length then t else t.pushDatagram target d
  | none => t

theorem queue_offer (c : DatagramCall) (id : Nat) :
    (t.offer (c.sends t)).queue id = t.queue id ++ c.arrives id t := by
  rw [DatagramCall.arrives]
  cases c.sends t with
  | none => exact (List.append_nil _).symm
  | some s =>
      obtain ⟨target, d⟩ := s
      dsimp only [offer]
      by_cases h : target = id
      · subst h
        split
        · rename_i hfull
          rw [if_neg fun h => Nat.not_lt.mpr hfull h.2, List.append_nil]
        · rename_i hroom
          rw [queue_pushDatagram, if_pos rfl, if_pos ⟨rfl, Nat.not_le.mp hroom⟩]
      · rw [if_neg fun h' : target = id ∧ _ => h h'.1, List.append_nil]
        split
        · rfl
        · rw [queue_pushDatagram, if_neg h, List.append_nil]

theorem sendTo_offers (socketId : Nat) (data : ByteArray8) (destAddr : SockAddr)
    (check : Option NetworkDecision) :
    ((sendTo socketId data destAddr check).exec t).2 =
      t.offer ((DatagramCall.sendTo socketId data destAddr check).sends t) := by
  unfold sendTo
  rw [exec_bind, requireSocket_exec]
  dsimp only [DatagramCall.sends]
  by_cases hlive : t.has socketId = true
  · simp only [hlive, if_true, true_and]
    by_cases htype : (t.objs socketId).type = SOCK_DGRAM
    · rw [if_neg (not_not.mpr htype)]
      by_cases hsize : MAX_DATAGRAM_SIZE < data.length
      · rw [if_pos hsize, if_neg fun h => Nat.not_le.mpr hsize h.2]
        rfl
      · rw [if_neg hsize, if_pos ⟨htype, Nat.not_lt.mp hsize⟩, exec_bind, exec_read]
        dsimp only [id]
        cases t.findBoundUdp destAddr with
        | some target =>
            dsimp only [Option.map_some, offer, queue]
            split
            · rfl
            · rfl
        | none =>
            dsimp only [Option.map_none, offer]
            split
            · rw [exec_bind, exec_lift]
              cases checkNetworkPermission "connect" check with
              | ok _ => rfl
              | error _ => rfl
            · rfl
    · rw [if_pos htype, if_neg fun h => htype h.1]
      rfl
  · rw [if_neg hlive, if_neg fun h => hlive h.1]
    rfl

theorem udpPumped_offers (socketId host : Nat) (d : UdpDatagram) :
    ((udpPumped socketId host d).exec t).2 = t.offer (some (socketId, d)) := by
  unfold udpPumped
  rw [exec_bind, exec_update]
  have hoffer : (if (t.objs socketId).datagramQueue.length < MAX_UDP_QUEUE_DEPTH
      then t.pushDatagram socketId d else t) = t.offer (some (socketId, d)) := by
    dsimp only [offer, queue]
    split
    · rename_i hroom
      rw [if_neg (Nat.not_le.mpr hroom)]
    · rename_i hfull
      rw [if_pos (Nat.not_lt.mp hfull)]
  dsimp only
  rw [hoffer, exec_bind, exec_read]
  dsimp only
  split
  · rfl
  · rfl

/-- What `recvFrom` comes to. -/
theorem recvFrom_cases (id maxBytes : Nat) (flags : Flags) :
    (∃ e, (recvFrom id maxBytes flags).exec t = (.error e, t)) ∨
      t.queue id = [] ∧ (recvFrom id maxBytes flags).exec t = (.ok none, t) ∨
      ∃ d rest, t.queue id = d :: rest ∧ (recvFrom id maxBytes flags).exec t =
        (.ok (some ⟨d.data.take maxBytes, d.srcAddr⟩),
          if flags.has MSG_PEEK then t else t.modify id ({ · with datagramQueue := rest })) := by
  unfold recvFrom
  rw [exec_bind, requireSocket_exec]
  by_cases hlive : t.has id = true
  · rw [if_pos hlive]
    dsimp only
    by_cases htype : (t.objs id).type = SOCK_DGRAM
    · rw [if_neg (not_not.mpr htype), queue]
      cases (t.objs id).datagramQueue with
      | nil =>
          dsimp only
          split
          · exact .inl ⟨_, rfl⟩
          · exact .inr (.inl ⟨rfl, rfl⟩)
      | cons d rest =>
          refine .inr (.inr ⟨d, rest, rfl, ?_⟩)
          dsimp only
          split
          · rfl
          · rfl
    · rw [if_pos htype]
      exact .inl ⟨_, rfl⟩
  · rw [if_neg hlive]
    exact .inl ⟨_, rfl⟩

theorem receives (id maxBytes : Nat) (flags : Flags) :
    Receives t id maxBytes flags := by
  rcases recvFrom_cases t id maxBytes flags with ⟨e, hexec⟩ | ⟨hq, hexec⟩ | ⟨d, rest, hq, hexec⟩
  · refine ⟨fun d t' hr => ?_, fun t' hr => ?_⟩
    · cases hexec.symm.trans hr
    · cases hexec.symm.trans hr
  · refine ⟨fun d t' hr => ?_, fun _ _ => hq⟩
    cases hexec.symm.trans hr
  · refine ⟨fun d' t' hr => ?_, fun t' hr => ?_⟩
    · cases hexec.symm.trans hr
      exact ⟨d, rest, hq, rfl, fun hpeek => if_pos hpeek⟩
    · cases hexec.symm.trans hr

variable {t}

/-! ### Every run -/

namespace Passes

variable {t' : SocketTable} {arrived arrived' : List UdpDatagram} {taken taken' : List (Nat × UdpDatagram)}

theorem refl (t : SocketTable) (id : Nat) : Passes t t id [] [] :=
  ⟨⟨[], (List.append_nil _).symm, .nil⟩, Nat.le_max_right ..⟩

theorem trans {t₁ : SocketTable} (h : Passes t t₁ id arrived taken)
    (h' : Passes t₁ t' id arrived' taken') :
    Passes t t' id (arrived ++ arrived') (taken ++ taken') := by
  obtain ⟨first, hq, hcut⟩ := h.inOrder
  obtain ⟨first', hq', hcut'⟩ := h'.inOrder
  refine ⟨⟨first ++ first', ?_, List.rel_append hcut hcut'⟩, ?_⟩
  · rw [List.append_assoc, hq', ← List.append_assoc, hq, List.append_assoc]
  · exact h'.bounded.trans (max_le (Nat.le_max_left ..) h.bounded)

theorem offer (t : SocketTable) (c : DatagramCall) (id : Nat) :
    Passes t (t.offer (c.sends t)) id (c.arrives id t) [] := by
  refine ⟨⟨[], queue_offer t c id, .nil⟩, ?_⟩
  rw [queue_offer, List.length_append, DatagramCall.arrives]
  split
  · split
    · rename_i h
      exact Nat.le_trans (Nat.succ_le_of_lt h.2) (Nat.le_max_left ..)
    · exact Nat.le_max_right ..
  · exact Nat.le_max_right ..

end Passes

theorem exec_map {α : Type} (p : Sock α) (f : α → Option UdpDatagram) (t : SocketTable) :
    ((f <$> p).exec t).2 = (p.exec t).2 :=
  state_of_wp (I := (· = _)) (wp_map.mpr (wp_of_state rfl))

/-- One call. -/
theorem run_passes (t : SocketTable) (id : Nat) (c : DatagramCall) :
    Passes t (c.run.exec t).2 id (c.arrives id t) (c.takes id t) := by
  cases c with
  | sendTo socketId data destAddr check =>
      have hoffer := Passes.offer t (.sendTo socketId data destAddr check) id
      rwa [← sendTo_offers, ← exec_map] at hoffer
  | pumped socketId host d =>
      have hoffer := Passes.offer t (.pumped socketId host d) id
      rwa [DatagramCall.sends, ← udpPumped_offers t socketId host d, ← exec_map] at hoffer
  | recvFrom socketId maxBytes flags =>
      rw [DatagramCall.run, DatagramCall.arrives, DatagramCall.sends, DatagramCall.takes]
      dsimp only
      rcases recvFrom_cases t socketId maxBytes flags with ⟨e, hexec⟩ | ⟨-, hexec⟩ |
        ⟨d, rest, hq, hexec⟩
      · rw [hexec]
        exact .refl t id
      · rw [hexec]
        exact .refl t id
      · rw [hexec]
        dsimp only
        by_cases hpeek : flags.has MSG_PEEK = true
        · rw [if_pos hpeek, if_neg fun h => h.2 hpeek]
          exact .refl t id
        · rw [if_neg hpeek]
          by_cases hid : socketId = id
          · subst hid
            rw [if_pos ⟨rfl, hpeek⟩]
            have hrest : (t.modify socketId ({ · with datagramQueue := rest })).queue socketId =
                rest := by
              rw [queue, modify_objs_self]
            refine ⟨⟨[d], ?_, .cons rfl .nil⟩, ?_⟩
            · rw [hrest, hq, List.append_nil, List.singleton_append]
            · rw [hrest, hq]
              exact (Nat.le_succ _).trans (Nat.le_max_right ..)
          · rw [if_neg fun h => hid h.1]
            have hsame : (t.modify socketId ({ · with datagramQueue := rest })).queue id =
                t.queue id := by
              rw [queue, modify_objs_of_ne t (Ne.symm hid)]
            refine ⟨⟨[], ?_, .nil⟩, ?_⟩
            · rw [hsame, List.append_nil, List.nil_append]
            · rw [hsame]
              exact Nat.le_max_right ..

/-- The calls, one after another. -/
theorem along_passes (t : SocketTable) (calls : List DatagramCall) (id : Nat) :
    Passes t (t.afterCalls calls) id (along (DatagramCall.arrives id) t calls)
      (along (DatagramCall.takes id) t calls) := by
  induction calls generalizing t with
  | nil => exact .refl t id
  | cons c calls ih => exact (run_passes t id c).trans (ih (c.run.exec t).2)

/-! ### Whom a datagram is sent to -/

variable {addr : SockAddr} {socketId : Nat}

theorem getBoundUdpSocket_iff {key : String} : t.getBoundUdpSocket key = some id ↔
    t.udpBindings.get key = some id ∧ t.has id = true ∧ (t.objs id).type = SOCK_DGRAM := by
  rw [getBoundUdpSocket]
  cases t.udpBindings.get key with
  | none => simp
  | some i =>
      simp only [Option.ite_none_right_eq_some, Bool.and_eq_true, beq_iff_eq, Option.some.injEq]
      constructor
      · rintro ⟨h, rfl⟩
        exact ⟨rfl, h⟩
      · rintro ⟨rfl, h⟩
        exact ⟨h, rfl⟩

theorem findBoundUdp_eq (t : SocketTable) (addr : SockAddr) :
    t.findBoundUdp addr = (serving addr).findSome? fun a => t.getBoundUdpSocket (addrKey a) := by
  cases addr with
  | unix path =>
      simp only [findBoundUdp, serving, List.findSome?, addrKey]
      cases t.getBoundUdpSocket path with
      | none => rfl
      | some i => rfl
  | inet host port =>
      simp only [findBoundUdp, serving, List.findSome?]
      cases t.getBoundUdpSocket (addrKey (.inet host port)) with
      | some i => rfl
      | none =>
          cases t.getBoundUdpSocket (addrKey (.inet "0.0.0.0" port)) with
          | some i => rfl
          | none => cases t.getBoundUdpSocket (addrKey (.inet "::" port)) <;> rfl

/-- The entry of the first address is right. -/
theorem entry_iff_has {a : SockAddr} {as : List SockAddr} (h : t.entriesRight (a :: as) = true) :
    t.getBoundUdpSocket (addrKey a) = some id ↔ t.Has a id := by
  rw [getBoundUdpSocket_iff, Has]
  rw [entriesRight, Bool.and_eq_true, List.all_eq_true] at h
  constructor
  · rintro ⟨hentry, hlive, htype⟩
    have hid := h.1 id ((has_iff t id).mp hlive)
    simp only [htype, hentry] at hid
    exact ⟨hlive, htype, by simpa using hid⟩
  · rintro ⟨hlive, htype, haddr⟩
    have hid := h.1 id ((has_iff t id).mp hlive)
    simp only [htype, haddr] at hid
    exact ⟨by simpa using hid, hlive, htype⟩

/-- Where the entries are right, the lookup finds the socket that has the first address. -/
theorem findSome_iff {as : List SockAddr} (h : t.entriesRight as = true) :
    as.findSome? (fun a => t.getBoundUdpSocket (addrKey a)) = some id ↔ t.HasFirst id as := by
  induction as with
  | nil => simp [HasFirst]
  | cons a as ih =>
      simp only [List.findSome?_cons, HasFirst]
      cases hget : t.getBoundUdpSocket (addrKey a) with
      | some i =>
          have hi : t.Has a i := (entry_iff_has h).mp hget
          dsimp only
          rw [← hget, entry_iff_has h]
          exact ⟨.inl, fun h => h.resolve_right fun hnone => hnone.1 i hi⟩
      | none =>
          have hnone : ∀ i, ¬ t.Has a i := fun i hi => by
            cases hget.symm.trans ((entry_iff_has h).mpr hi)
          have has : t.entriesRight as = true := by
            rw [entriesRight, Bool.and_eq_true, Bool.or_eq_true, List.any_eq_true] at h
            refine h.2.resolve_left ?_
            rintro ⟨i, hi, hhas⟩
            simp only [Bool.and_eq_true, beq_iff_eq] at hhas
            exact hnone i ⟨(has_iff t i).mpr hi, hhas⟩
          dsimp only
          rw [ih has]
          exact ⟨fun h => .inr ⟨hnone, h⟩, fun h => (h.resolve_left (hnone id)).2⟩

/-- What a socket sends is from an address that it serves. -/
theorem serves_getUdpSourceAddr {s : KernelSocket} {a : SockAddr} (ha : s.localAddr = some a) :
    Serves a (getUdpSourceAddr s addr) := by
  cases a with
  | unix path => simp [getUdpSourceAddr, ha, Serves]
  | inet host port =>
      cases addr with
      | unix path => simp [getUdpSourceAddr, ha, Serves]
      | inet destHost destPort =>
          simp only [getUdpSourceAddr, ha]
          split
          · rename_i hwild
            exact ⟨rfl, .inr hwild⟩
          · exact ⟨rfl, .inl rfl⟩

variable {c : DatagramCall}

/-- What is sent is sent to the socket that is found. -/
theorem sends_iff (h : c.entriesRight t = true) :
    (∀ d, c.sends t = some (id, d) → c.SendsTo t id d) ∧
      ∀ d, c.SendsTo t id d → ∃ d', c.sends t = some (id, d') := by
  cases c with
  | recvFrom socketId maxBytes flags => exact ⟨nofun, nofun⟩
  | pumped socketId host d =>
      refine ⟨fun d' hs => ?_, fun d' hs => ?_⟩
      · cases hs
        exact .pumped
      · cases hs
        exact ⟨d, rfl⟩
  | sendTo socketId data destAddr check =>
      have hfound : _ = some id ↔ t.HasFirst id _ := findSome_iff h
      rw [← findBoundUdp_eq] at hfound
      refine ⟨fun d hs => ?_, fun d hs => ?_⟩
      · rw [DatagramCall.sends] at hs
        split at hs
        · rename_i hc
          obtain ⟨target, ht, hd⟩ := Option.map_eq_some_iff.mp hs
          cases hd
          exact .sendTo hc.1 hc.2.1 hc.2.2 (hfound.mp ht) fun a => serves_getUdpSourceAddr
        · cases hs
      · cases hs with
        | sendTo live type size dest source =>
            rw [DatagramCall.sends, if_pos ⟨live, type, size⟩, hfound.mpr dest]
            exact ⟨_, rfl⟩

/-- What a call puts into a queue is what it sends to the socket. -/
theorem arrives_cons {calls : List DatagramCall} {arrived : List UdpDatagram}
    (h : c.entriesRight t = true) (rest : Arrives id (c.run.exec t).2 calls arrived) :
    Arrives id t (c :: calls) (c.arrives id t ++ arrived) := by
  obtain ⟨hsends, hsent⟩ : (∀ d, c.sends t = some (id, d) → _) ∧ _ := sends_iff h
  rw [DatagramCall.arrives]
  cases hs : c.sends t with
  | none =>
      refine .other (fun d hd => ?_) rest
      obtain ⟨d', hd'⟩ := hsent d hd
      cases hs.symm.trans hd'
  | some s =>
      obtain ⟨target, d⟩ := s
      dsimp only
      by_cases ht : target = id
      · subst ht
        by_cases hroom : (t.queue target).length < MAX_UDP_QUEUE_DEPTH
        · rw [if_pos ⟨rfl, hroom⟩]
          exact .sent (hsends d hs) rest
        · rw [if_neg fun h => hroom h.2]
          exact .dropped (hsends d hs) (Nat.not_lt.mp hroom) rest
      · rw [if_neg fun h => ht h.1]
        refine .other (fun d' hd => ?_) rest
        obtain ⟨d'', hd'⟩ := hsent d' hd
        cases hs.symm.trans hd'
        exact ht rfl

theorem along_arrives {calls : List DatagramCall} (h : t.entriesRightAlong calls = true) :
    Arrives id t calls (along (DatagramCall.arrives id) t calls) := by
  induction calls generalizing t with
  | nil => exact .nil
  | cons c calls ih =>
      rw [entriesRightAlong, Bool.and_eq_true] at h
      exact arrives_cons h.1 (ih h.2)

/-- **Datagrams arrive whole and in order** at every socket, from any table, in every run in which
each is sent to an address whose entries are right. -/
theorem datagrams_in_order {calls : List DatagramCall} (h : t.entriesRightAlong calls = true)
    (id : Nat) :
    (∃ arrived, Arrives id t calls arrived ∧
      Passes t (t.afterCalls calls) id arrived (along (DatagramCall.takes id) t calls)) ∧
      ∀ maxBytes flags, Receives (t.afterCalls calls) id maxBytes flags :=
  ⟨⟨_, along_arrives h, along_passes t calls id⟩, fun maxBytes flags => receives _ id maxBytes flags⟩

end SocketTable

/-! ### A socket that is found, and one that is not -/

namespace SocketSys
open SocketTable

/-- Two sockets are bound to an address, and a third to another. -/
def boundTwice : List SocketAction :=
  [.call (.create 2 SOCK_DGRAM 0 7 true), .call (.bind 1 (.inet "127.0.0.1" 5000)),
    .call (.create 2 SOCK_DGRAM 0 8 true), .call (.setsockopt 2 SOL_SOCKET SO_REUSEADDR 1),
    .call (.bind 2 (.inet "127.0.0.1" 5000)), .call (.create 2 SOCK_DGRAM 0 7 true),
    .call (.bind 3 (.inet "127.0.0.1" 6000))]

/-- Socket 1 sends two bytes to socket 3, which takes one. -/
def sendAndTake : List DatagramCall :=
  [.sendTo 1 [1, 2] (.inet "127.0.0.1" 6000) none, .recvFrom 3 1 0]

theorem datagrams_in_order_taken : ∃ s : SocketSys, Lts.Reach step Lts.Any (new 8 false false) s ∧
    ∃ arrived, Arrives 3 s.table sendAndTake arrived ∧
      Passes s.table (s.table.afterCalls sendAndTake) 3 arrived
        [(1, ⟨[1], .inet "127.0.0.1" 5000⟩)] := by
  obtain ⟨s, hs, hright, htakes⟩ := Lts.Reach.exists_of_exec step (new 8 false false) boundTwice
    (P := fun s => s.table.entriesRightAlong sendAndTake = true ∧
      along (DatagramCall.takes 3) s.table sendAndTake = [(1, ⟨[1], .inet "127.0.0.1" 5000⟩)])
    (by decide +kernel)
  exact ⟨s, hs, htakes ▸ (datagrams_in_order hright 3).1⟩

/-- Socket 2 is closed, and what socket 3 sends to the address that socket 1 still has is dropped,
though nothing is queued. -/
theorem datagrams_lost : ∃ s : SocketSys, Lts.Reach step Lts.Any (new 8 false false) s ∧
    ¬ ∃ arrived, Arrives 1 s.table [.sendTo 3 [7] (.inet "127.0.0.1" 5000) none] arrived ∧
      Passes s.table (s.table.afterCalls [.sendTo 3 [7] (.inet "127.0.0.1" 5000) none]) 1 arrived
        [] := by
  obtain ⟨s, hs, hlive, hsender, hq, hq'⟩ := Lts.Reach.exists_of_exec step (new 8 false false)
    (boundTwice ++ [.call (.close 2 8)]) (P := fun s =>
      (s.table.has 1 = true ∧ (s.table.objs 1).type = SOCK_DGRAM ∧
        (s.table.objs 1).localAddr = some (.inet "127.0.0.1" 5000)) ∧
      (s.table.has 3 = true ∧ (s.table.objs 3).type = SOCK_DGRAM) ∧ s.table.queue 1 = [] ∧
      (s.table.afterCalls [.sendTo 3 [7] (.inet "127.0.0.1" 5000) none]).queue 1 = [])
      (by decide +kernel)
  refine ⟨s, hs, ?_⟩
  rintro ⟨arrived, harrives, ⟨first, hfirst, hcut⟩, -⟩
  have hsend : DatagramCall.SendsTo s.table 1 (.sendTo 3 [7] (.inet "127.0.0.1" 5000) none)
      ⟨[7], getUdpSourceAddr (s.table.objs 3) (.inet "127.0.0.1" 5000)⟩ :=
    .sendTo hsender.1 hsender.2 (by decide) (.inl hlive) fun _ => serves_getUdpSourceAddr
  cases hcut
  rw [hq, hq'] at hfirst
  cases harrives with
  | sent h rest => cases hfirst
  | dropped h full rest =>
      rw [hq] at full
      exact absurd full (by decide)
  | other h rest => exact h _ hsend

end SocketSys

end SecureExec.Socket
