import SecureExec.Socket.Addresses

/-!
# Socket — Routing — where a connection or a datagram goes

`connect` and `sendTo` look their target up by the key of the address.  An entry of the registries
names a socket by the key of its own address (`Named`) in every run in which no entry of a socket
is left behind; the keys of inet addresses are distinct (`addrKey_inet_inj`).  So what is sent to an
address comes to a socket of that address, unless a socket of the other family has one of the keys
(`apart`): a unix path may be spelled like a host and a port.
-/

namespace SecureExec.Socket
open SecureExec Kernel Prog

/-! ### Keys -/

/-- The last separator splits a list in one way. -/
theorem split_at_last {α : Type} {c : α} {l l' d d' : List α} (h : l ++ c :: d = l' ++ c :: d')
    (hd : c ∉ d) (hd' : c ∉ d') : l = l' ∧ d = d' := by
  have hcut : ∀ {m d d' : List α}, c ∉ d → c :: d = m ++ c :: d' → m = [] := by
    intro m d d' hd h
    cases m with
    | nil => rfl
    | cons x m =>
        have htail : d = m ++ c :: d' := (List.cons.inj h).2
        exact (hd (htail ▸ List.mem_append_right m List.mem_cons_self)).elim
  rcases List.append_eq_append_iff.mp h with ⟨m, hm, he⟩ | ⟨m, hm, he⟩
  · have hnil := hcut hd he
    subst hnil
    exact ⟨by simpa using hm.symm, by simpa using he⟩
  · have hnil := hcut hd' he
    subst hnil
    exact ⟨by simpa using hm, by simpa using he.symm⟩

theorem colon_not_mem_toString (n : Nat) : ':' ∉ (toString n).toList := by
  rw [Nat.toString_eq_repr, Nat.toList_repr]
  intro h
  have hdigit := Nat.isDigit_of_mem_toDigits (by decide) (by decide) h
  revert hdigit
  decide

theorem toString_nat_inj {n m : Nat} (h : (toString n).toList = (toString m).toList) : n = m := by
  rw [Nat.toString_eq_repr, Nat.toString_eq_repr, Nat.toList_repr, Nat.toList_repr] at h
  have hdigits := congrArg (fun ds => Nat.ofDigitChars 10 ds 0) h
  simpa using hdigits

/-- A host may have colons, a port has none. -/
theorem addrKey_inet_inj {host host' : String} {port port' : Nat}
    (h : addrKey (.inet host port) = addrKey (.inet host' port')) :
    host = host' ∧ port = port' := by
  have hl := congrArg String.toList h
  have hcolon : ":".toList = [':'] := rfl
  simp only [addrKey, String.toList_append, hcolon, List.append_assoc, List.singleton_append] at hl
  obtain ⟨hhost, hport⟩ :=
    split_at_last hl (colon_not_mem_toString port) (colon_not_mem_toString port')
  exact ⟨String.toList_inj.mp hhost, toString_nat_inj hport⟩

/-- The keys an address is looked up by. -/
def lookupKeys : SockAddr → List String
  | .inet host port =>
    [addrKey (.inet host port), addrKey (.inet "0.0.0.0" port), addrKey (.inet "::" port)]
  | .unix path => [path]

def sameFamily : SockAddr → SockAddr → Bool
  | .inet _ _, .inet _ _ => true
  | .unix _, .unix _ => true
  | _, _ => false

/-- A socket at the first address gets what is sent to the second. -/
def Serves : SockAddr → SockAddr → Prop
  | .inet host port, .inet host' port' => port = port' ∧ (host = host' ∨ isWildcard host = true)
  | .unix path, .unix path' => path = path'
  | _, _ => False

theorem serves_of_key {a addr : SockAddr} (hf : sameFamily a addr = true)
    (hk : addrKey a ∈ lookupKeys addr) : Serves a addr := by
  cases a with
  | unix path =>
      cases addr with
      | unix path' => exact List.mem_singleton.mp hk
      | inet host port => cases hf
  | inet host port =>
      cases addr with
      | unix path => cases hf
      | inet host' port' =>
          simp only [lookupKeys, List.mem_cons, List.not_mem_nil, or_false] at hk
          rcases hk with hk | hk | hk
          · exact ⟨(addrKey_inet_inj hk).2, .inl (addrKey_inet_inj hk).1⟩
          · obtain ⟨rfl, rfl⟩ := addrKey_inet_inj hk
            exact ⟨rfl, .inr rfl⟩
          · obtain ⟨rfl, rfl⟩ := addrKey_inet_inj hk
            exact ⟨rfl, .inr rfl⟩

namespace SocketTable

variable {A : Asked} {s : KernelSocket} {t t' : SocketTable}

/-! ### What the entries name -/

/-- An entry names a socket that was made, by the key of its address while it is there. -/
def Named (t : SocketTable) : Prop :=
  ∀ d key id, t.index.entry d key = some id →
    id < t.nextSocketId ∧ (t.has id = true → t.index.key id = some key)

theorem named_new (maxSockets : Nat) (vfs hostAdapter : Bool) :
    Named (.new maxSockets vfs hostAdapter) := by
  intro d key id h
  cases d with
  | false => cases h
  | true => cases h

theorem named_addrLike (h : Named t) (hn : t'.nextSocketId = t.nextSocketId)
    (ha : AddrLike t t') : Named t' := by
  intro d key id he
  have he' : t.index.entry d key = some id := by
    simpa only [index, bindings, ha.listeners, ha.udpBindings] using he
  obtain ⟨hlt, hkey⟩ := h d key id he'
  refine ⟨hn ▸ hlt, fun hlive => ?_⟩
  have hlive' : t.has id = true := by rwa [has, ha.sockets] at hlive
  have hown := hkey hlive'
  rcases (ha.objs id).addr with hsame | hnone
  · exact (congrArg (Option.map addrKey) hsame).trans hown
  · simp only [index, hnone, Option.map_none] at hown
    cases hown

theorem named_add (h : Named t) (s : KernelSocket) : Named (t.add s) := by
  intro d key id he
  obtain ⟨hlt, hkey⟩ := h d key id he
  have hne : id ≠ t.nextSocketId := Nat.ne_of_lt hlt
  refine ⟨Nat.lt_succ_of_lt hlt, fun hlive => ?_⟩
  have hlive' : t.has id = true := by
    have hmem := (has_iff _ id).mp hlive
    refine (has_iff t id).mpr ((List.mem_append.mp hmem).resolve_right fun hs => ?_)
    exact hne (List.mem_singleton.mp hs)
  simpa only [index, add_objs_of_ne t hne] using hkey hlive'

variable {g : KernelSocket → KernelSocket}

theorem named_modify (h : Named t) (id : Nat)
    (hg : (g (t.objs id)).localAddr = (t.objs id).localAddr) : Named (t.modify id g) := by
  intro d key x he
  obtain ⟨hlt, hkey⟩ := h d key x he
  refine ⟨hlt, fun hlive => ?_⟩
  have haddr := modify_field t id x (·.localAddr) hg
  exact (congrArg (Option.map addrKey) haddr).trans (hkey hlive)

variable {addr : SockAddr}

/-- The entries of a socket that is bound again are those of its new address. -/
theorem named_register (h : Named t) {id : Nat} (hid : id < t.nextSocketId)
    (ho : t.boundOnce id addr = true) : Named (t.setAddr id addr) := by
  intro d key x he
  have hself : (t.setAddr id addr).index.key id = some (addrKey addr) := by
    simp only [index, setAddr_objs, modify_objs_self, Option.map_some]
  rw [(setAddr_base t id addr).2]
  rw [entry_setAddr] at he
  split at he
  · rename_i hc
    cases Option.some.inj he
    exact ⟨hid, fun _ => hc.2 ▸ hself⟩
  · obtain ⟨hlt, hkey⟩ := h d key x he
    refine ⟨hlt, fun hlive => ?_⟩
    have hlive' : t.has x = true := by rwa [has, (setAddr_base t id addr).1] at hlive
    have hown := hkey hlive'
    by_cases hx : x = id
    · subst hx
      obtain ⟨old, ha, rfl⟩ := Option.map_eq_some_iff.mp hown
      simp only [boundOnce, hlive', Bool.not_true, Bool.false_or, noOtherEntry, ha,
        Bool.or_eq_true, beq_iff_eq, Bool.and_eq_true, bne_iff_ne, ne_eq] at ho
      rcases ho with hk | ⟨hlisten, hudp⟩
      · rw [hself, hk]
      · cases d with
        | false => exact (hlisten he).elim
        | true => exact (hudp he).elim
    · simpa only [index, setAddr_objs, modify_objs_of_ne t hx] using hown

/-- The entry of the old address goes when the address moves. -/
theorem named_rekey (h : Named t) {id port : Nat} (hid : id < t.nextSocketId)
    (ho : t.movedOnce id = true) : Named (t.rekey id port) := by
  intro d key x he
  have hself : (t.rekey id port).index.key id =
      some (addrKey (.inet (hostOf (t.objs id).localAddr) port)) := by
    simp only [index, rekey_objs, modify_objs_self, Option.map_some]
  have hother : ∀ x, x ≠ id → (t.rekey id port).index.key x = t.index.key x := fun x hx => by
    simp only [index, rekey_objs, modify_objs_of_ne t hx]
  rw [entry_rekey] at he
  split at he
  · rename_i hc
    cases Option.some.inj he
    exact ⟨hid, fun _ => hc.2 ▸ hself⟩
  · split at he
    · cases he
    · rename_i hnot
      obtain ⟨hlt, hkey⟩ := h d key x he
      refine ⟨hlt, fun hlive => ?_⟩
      have hown := hkey hlive
      by_cases hx : x = id
      · subst hx
        obtain ⟨old, ha, rfl⟩ := Option.map_eq_some_iff.mp hown
        cases d with
        | false => exact (hnot ⟨rfl, hown⟩).elim
        | true =>
            have hlive' : t.has x = true := hlive
            simp only [movedOnce, ha, hlive', Bool.not_true, Bool.false_or, bne_iff_ne] at ho
            exact (ho he).elim
      · exact (hother x hx).trans hown

theorem named_finish (h : Named t) (id : Nat) : Named (t.finish id) := by
  intro d key x he
  rw [entry_finish] at he
  split at he
  · cases he
  · obtain ⟨hlt, hkey⟩ := h d key x he
    rw [finish_nextSocketId]
    refine ⟨hlt, fun hlive => ?_⟩
    have hlive' : t.has x = true := by
      rw [has_iff, finish_sockets] at hlive
      exact (has_iff t x).mpr (List.mem_of_mem_erase hlive)
    simpa only [index, (finish_addr t id x).1] using hkey hlive'

/-- **Every effect that leaves no entry behind.** -/
theorem named_effect (hA : A.once) (h : Named t) (he : Effect A t t') : Named t' := by
  cases he with
  | change hc => exact named_addrLike h hc.calm.peers.next hc.calm.addrs
  | add s _ _ => exact named_add h s
  | queue l c _ _ =>
      exact named_addrLike (named_modify h l rfl) rfl (Calm.wakeAccepter _ l).addrs
  | link a b _ _ _ _ _ _ => exact named_modify (named_modify h a rfl) b rfl
  | unlink id p _ _ _ => exact named_modify h id rfl
  | register id addr hid _ ho _ _ => exact named_register h hid (ho hA)
  | listen id _ _ => exact named_modify h id rfl
  | rekey id port hid _ ho => exact named_rekey h hid (ho hA)
  | finish id _ => exact named_finish h id

theorem named_effects (hA : A.once) (h : Named t) (he : Effects A t t') : Named t' := by
  induction he with
  | refl => exact h
  | tail _ he ih => exact named_effect hA ih he

/-! ### What is found -/

theorem mem_of_getListeningSocket {key : String} {id : Nat}
    (h : t.getListeningSocket key = some id) :
    t.index.entry false key = some id ∧ t.has id = true ∧ (t.objs id).state = .listening := by
  unfold getListeningSocket at h
  split at h
  · cases h
  · rename_i x hx
    split at h
    · rename_i hc
      cases h
      simp only [Bool.and_eq_true, beq_iff_eq] at hc
      exact ⟨hx, hc⟩
    · cases h

theorem mem_of_getBoundUdpSocket {key : String} {id : Nat}
    (h : t.getBoundUdpSocket key = some id) :
    t.index.entry true key = some id ∧ t.has id = true ∧ (t.objs id).type = SOCK_DGRAM := by
  unfold getBoundUdpSocket at h
  split at h
  · cases h
  · rename_i x hx
    split at h
    · rename_i hc
      cases h
      simp only [Bool.and_eq_true, beq_iff_eq] at hc
      exact ⟨hx, hc⟩
    · cases h

/-- The socket may be found by a lookup. -/
def reachable (t : SocketTable) (id : Nat) : Bool :=
  (t.objs id).state == .listening || (t.objs id).type == SOCK_DGRAM

/-- No listening or datagram socket of the other family has a key of the address. -/
def apart (t : SocketTable) (addr : SockAddr) : Bool :=
  t.sockets.all fun id => !t.reachable id ||
    (t.objs id).localAddr.all fun a => sameFamily a addr || !(lookupKeys addr).contains (addrKey a)

/-- The socket that is found for an address. -/
def Found (t : SocketTable) (addr : SockAddr) (id : Nat) : Prop :=
  t.findListener addr = some id ∨ t.findBoundUdp addr = some id

theorem or_or_eq_some {α : Type} {x y z : Option α} {a : α} (h : (x.or y).or z = some a) :
    x = some a ∨ y = some a ∨ z = some a := by
  cases x with
  | some b => exact .inl h
  | none =>
      cases y with
      | some b => exact .inr (.inl h)
      | none => exact .inr (.inr h)

/-- What is found has one of the keys. -/
theorem entry_of_found {id : Nat} (h : t.Found addr id) :
    ∃ d, ∃ key ∈ lookupKeys addr, t.index.entry d key = some id ∧ t.has id = true ∧
      t.reachable id = true := by
  rcases h with h | h
  · have hkey : ∃ key ∈ lookupKeys addr, t.getListeningSocket key = some id := by
      cases addr with
      | unix path => exact ⟨path, List.mem_singleton_self _, h⟩
      | inet host port =>
          rcases or_or_eq_some h with h | h | h
          · exact ⟨_, by simp [lookupKeys], h⟩
          · exact ⟨_, by simp [lookupKeys], h⟩
          · exact ⟨_, by simp [lookupKeys], h⟩
    obtain ⟨key, hmem, hget⟩ := hkey
    obtain ⟨hent, hlive, hstate⟩ := mem_of_getListeningSocket hget
    exact ⟨false, key, hmem, hent, hlive, by simp [reachable, hstate]⟩
  · have hkey : ∃ key ∈ lookupKeys addr, t.getBoundUdpSocket key = some id := by
      cases addr with
      | unix path => exact ⟨path, List.mem_singleton_self _, h⟩
      | inet host port =>
          rcases or_or_eq_some h with h | h | h
          · exact ⟨_, by simp [lookupKeys], h⟩
          · exact ⟨_, by simp [lookupKeys], h⟩
          · exact ⟨_, by simp [lookupKeys], h⟩
    obtain ⟨key, hmem, hget⟩ := hkey
    obtain ⟨hent, hlive, htype⟩ := mem_of_getBoundUdpSocket hget
    exact ⟨true, key, hmem, hent, hlive, by simp [reachable, htype]⟩

/-- A lookup finds a socket that serves the address. -/
theorem serves_of_found (h : Named t) {id : Nat} (ha : t.apart addr = true)
    (hf : t.Found addr id) : ∃ a, (t.objs id).localAddr = some a ∧ Serves a addr := by
  obtain ⟨d, key, hmem, hent, hlive, hreach⟩ := entry_of_found hf
  obtain ⟨a, haddr, rfl⟩ := Option.map_eq_some_iff.mp ((h d key id hent).2 hlive)
  have hid := List.all_eq_true.mp ha id ((has_iff t id).mp hlive)
  simp only [hreach, haddr, Bool.not_true, Bool.false_or, Option.all_some, Bool.or_eq_true,
    Bool.not_eq_true', List.contains_eq_mem, decide_eq_false_iff_not] at hid
  exact ⟨a, haddr, serves_of_key (hid.resolve_right fun hnot => hnot hmem) hmem⟩

/-! ### What comes to a socket -/

/-- The connections and the datagrams that wait at a socket. -/
def inbox (s : KernelSocket) : Nat × Nat := (s.backlog.length, s.datagramQueue.length)

/-- The socket has got a connection or a datagram. -/
def Received (t t' : SocketTable) (id : Nat) : Prop :=
  (inbox (t.objs id)).1 < (inbox (t'.objs id)).1 ∨ (inbox (t.objs id)).2 < (inbox (t'.objs id)).2

/-- What came to a socket came to one that is found for the address. -/
def Delivers (addr : SockAddr) (t t' : SocketTable) : Prop :=
  ∀ id, Received t t' id → t.Found addr id

theorem not_received {id : Nat} (h : inbox (t'.objs id) = inbox (t.objs id)) :
    ¬ Received t t' id := by
  rintro (hlt | hlt)
  · rw [h] at hlt
    exact Nat.lt_irrefl _ hlt
  · rw [h] at hlt
    exact Nat.lt_irrefl _ hlt

namespace Delivers

variable {addr : SockAddr} {id : Nat}

theorem of_inbox (h : ∀ i, inbox (t'.objs i) = inbox (t.objs i)) : Delivers addr t t' :=
  fun i hr => (not_received (h i) hr).elim

theorem refl (t : SocketTable) : Delivers addr t t := of_inbox fun _ => rfl

theorem modify (hg : inbox (g (t.objs id)) = inbox (t.objs id)) : Delivers addr t (t.modify id g) :=
  of_inbox fun i => modify_field t id i inbox hg

theorem pushDatagram (h : t.Found addr id) (d : UdpDatagram) :
    Delivers addr t (t.pushDatagram id d) := by
  intro i hr
  by_cases hi : i = id
  · exact hi ▸ h
  · refine (not_received ?_ hr).elim
    rw [SocketTable.pushDatagram, wakeReader_field _ id i inbox fun _ _ => rfl,
      modify_objs_of_ne t hi]

/-- The listener has a connection more, and the new socket has none. -/
theorem connectedTo {l : Nat} (h : t.Found addr l) (socketId : Nat) (dest : SockAddr) :
    Delivers addr t (t.connectedTo socketId l dest) := by
  intro i hr
  by_cases hi : i = l
  · exact hi ▸ h
  · let listener := t.objs l
    let t₁ := t.add (.new listener.domain listener.type listener.protocol listener.pid)
    have hin : inbox ((t.connectedTo socketId l dest).objs i) = inbox (t₁.objs i) := by
      rw [SocketTable.connectedTo, connectPair, wakeAccepter_field _ l i inbox fun _ _ => rfl,
        modify_objs_of_ne _ hi, linkPeers,
        modify_field _ t.nextSocketId i inbox rfl, modify_field _ socketId i inbox rfl,
        modify_field _ t.nextSocketId i inbox rfl, modify_field _ socketId i inbox rfl]
    rw [Received, hin] at hr
    by_cases hnew : i = t.nextSocketId
    · subst hnew
      rw [add_objs_self] at hr
      rcases hr with hr | hr
      · exact (Nat.not_lt_zero _ hr).elim
      · exact (Nat.not_lt_zero _ hr).elim
    · rw [add_objs_of_ne t hnew] at hr
      rcases hr with hr | hr
      · exact (Nat.lt_irrefl _ hr).elim
      · exact (Nat.lt_irrefl _ hr).elim

end Delivers

variable (socketId : Nat)

theorem sendTo_delivers (data : ByteArray8) (addr : SockAddr)
    (check : Option NetworkDecision) :
    (sendTo socketId data addr check).wp t (fun _ => Delivers addr t) fun _ => Delivers addr t := by
  unfold sendTo
  refine wp_bind.mpr (wp_requireSocket (fun _ => ?_) fun _ => .refl t)
  split
  · exact .refl t
  · split
    · exact .refl t
    · refine wp_bind.mpr ?_
      rw [wp_read]
      dsimp only [id]
      split
      · rename_i target hf
        split
        · exact .refl t
        · exact .pushDatagram (.inr hf) _
      · split
        · refine wp_bind.mpr (wp_lift_of (fun _ _ => ?_) fun _ _ => .refl t)
          exact .refl t
        · exact .refl t

theorem route_delivers (addr : SockAddr) (check : Option NetworkDecision)
    (known : Bool) :
    (route socketId addr check known).wp t (fun _ => Delivers addr t) fun _ => Delivers addr t := by
  unfold route
  refine wp_bind.mpr ?_
  rw [wp_read]
  split
  · rename_i l hl
    refine wp_bind.mpr (wp_connectTo (fun _ _ _ => ?_) fun _ => .refl t)
    exact Delivers.connectedTo (.inl hl) socketId addr
  · split
    · exact .refl t
    · unfold connectExternal
      refine wp_bind.mpr (wp_lift_of (fun _ _ => ?_) fun _ _ => .refl t)
      refine wp_bind.mpr ?_
      rw [wp_read]
      dsimp only [id]
      split
      · split
        · exact Delivers.modify rfl
        · exact .refl t
      · exact .refl t

theorem connectBound_delivers (addr : SockAddr) (check : Option NetworkDecision)
    (known : Bool) :
    (connectBound socketId addr check known).wp t (fun _ => Delivers addr t)
      fun _ => Delivers addr t := by
  unfold connectBound
  refine wp_bind.mpr ?_
  rw [wp_read]
  split
  · exact .refl t
  · exact route_delivers socketId _ check known

theorem findBoundUdp_modify {id : Nat}
    (hg : (g (t.objs id)).type = (t.objs id).type) (addr : SockAddr) :
    (t.modify id g).findBoundUdp addr = t.findBoundUdp addr := by
  have hkey : ∀ key, (t.modify id g).getBoundUdpSocket key = t.getBoundUdpSocket key := by
    intro key
    have htype : ∀ x, ((t.modify id g).objs x).type = (t.objs x).type :=
      fun x => modify_field t id x (·.type) hg
    unfold getBoundUdpSocket
    simp only [htype]
    rfl
  unfold findBoundUdp
  simp only [hkey]

/-- The lookup does not see the address that `connect` gives its own socket. -/
theorem connect_delivers (addr : SockAddr) (check : Option NetworkDecision)
    (known : Bool) :
    (connect socketId addr check known).wp t (fun _ => Delivers addr t)
      fun _ => Delivers addr t := by
  unfold connect
  refine wp_bind.mpr (wp_requireSocket (fun _ => ?_) fun _ => .refl t)
  split
  · exact .refl t
  · refine wp_bind.mpr (wp_autoBind (connectBound_delivers socketId addr check known)
      (fun a v _ => ?_) fun _ _ => .modify rfl)
    let t₁ := t.modify socketId ({ · with requestedEphemeralPort := v, localAddr := some a })
    have hback : ∀ t', Delivers addr t₁ t' → Delivers addr t t' := by
      intro t' h i hr
      have hin : inbox (t₁.objs i) = inbox (t.objs i) := modify_field t socketId i inbox rfl
      have hf : t₁.Found addr i := h i (by rwa [Received, hin])
      rcases hf with hf | hf
      · exact .inl ((findListener_modify rfl addr).symm.trans hf)
      · exact .inr ((findBoundUdp_modify rfl addr).symm.trans hf)
    exact wp_mono (connectBound_delivers socketId addr check known)
      (fun _ t' => hback t') fun _ t' => hback t'

theorem connectChecked_delivers (addr : SockAddr) (pathExists known : Bool) :
    (connectChecked socketId addr pathExists known).wp t (fun _ => Delivers addr t)
      fun _ => Delivers addr t := by
  cases pathExists with
  | true => exact route_delivers socketId addr none known
  | false => exact .refl t

end SocketTable

/-! ### Runs -/

namespace SocketSys

open SocketTable

/-- No entry is left behind. -/
def onceAsked : Asked := ⟨False, False, True, False, False, fun _ => True⟩

/-- The address that a step sends to. -/
def target (s : SocketSys) : SocketAction → Option SockAddr
  | .call (.connect _ addr _ _) => some addr
  | .call (.sendTo _ _ addr _) => some addr
  | .resume i (.pathExists _ _) =>
    match s.calls[i]? with
    | some (.connectExists _ addr) => some addr
    | _ => none
  | _ => none

variable {s s' : SocketSys}

/-- The table after the step of a program is one the program leaves. -/
theorem run_delivers {α : Type} {addr : SockAddr} {calls : List Awaiting} {p : Sock α}
    {f : α → List Awaiting}
    (h : p.wp s.table (fun _ => Delivers addr s.table) fun _ => Delivers addr s.table) :
    Delivers addr s.table (s.run calls (f <$> p)).table :=
  state_of_wp (I := Delivers addr s.table) (wp_map.mpr h)

theorem step_delivers {act : SocketAction} {addr : SockAddr} (ht : s.target act = some addr)
    (hs : s.step act = some s') : Delivers addr s.table s'.table := by
  cases act with
  | call c =>
      cases hs
      cases c with
      | connect id dest check known =>
          cases ht
          exact run_delivers (connect_delivers id addr check known)
      | sendTo id data dest check =>
          cases ht
          exact run_delivers (sendTo_delivers id data addr check)
      | _ => cases ht
  | resume i ans =>
      simp only [step] at hs
      split at hs
      · cases hs
      · rename_i c hc
        split at hs
        · obtain ⟨p, hp, rfl⟩ := Option.map_eq_some_iff.mp hs
          cases ans with
          | pathExists yes known =>
              simp only [target, hc] at ht
              split at ht
              · rename_i id dest hto
                cases ht
                cases Option.some.inj hto
                cases hp
                exact run_delivers (connectChecked_delivers id addr yes known)
              · cases ht
          | _ => cases ht
        · cases hs

/-- What a run that leaves no entry behind keeps. -/
structure Routed (s : SocketSys) : Prop where
  ok : s.Ok
  named : Named s.table

theorem Routed.step (h : s.Routed) {act : SocketAction} (hc : s.bindsAllowed act = true)
    (hs : s.step act = some s') : s'.Routed := by
  have hA : Meets onceAsked s act :=
    ⟨False.elim, False.elim, fun _ => hc, False.elim, False.elim, fun _ _ => trivial⟩
  obtain ⟨he, hok⟩ := step_effects h.ok hA hs
  exact ⟨hok, named_effects trivial h.named he⟩

/-- **Families do not mix.**  In a run that leaves no entry of a socket behind, what is sent to an
address comes only to sockets that serve it, as long as no socket of the other family has one of
its keys. -/
theorem sent_to_address {maxSockets : Nat} {vfs hostAdapter : Bool}
    (r : Lts.Reach step (fun s act => s.bindsAllowed act = true)
      (new maxSockets vfs hostAdapter) s)
    {act : SocketAction} {addr : SockAddr} (ht : s.target act = some addr)
    (ha : s.table.apart addr = true) (hs : s.step act = some s') :
    ∀ id, Received s.table s'.table id →
      ∃ a, (s.table.objs id).localAddr = some a ∧ Serves a addr := by
  have h : s.Routed := Lts.Reach.invariant (I := Routed)
    ⟨.new maxSockets vfs hostAdapter, named_new maxSockets vfs hostAdapter⟩
    (fun _ _ _ h hc hs => h.step hc hs) r
  exact fun id hr => serves_of_found h.named ha (step_delivers ht hs id hr)

/-- Socket 1 listens at the path, and socket 2 is made. -/
def listenAt (path : String) : List SocketAction :=
  [.call (.create 1 SOCK_STREAM 0 7 true), .call (.bind 1 (.unix path)),
    .resume 0 (.pathExists false true), .call (.listen 1 8 false none),
    .call (.create 2 SOCK_STREAM 0 8 true)]

instance (t t' : SocketTable) (id : Nat) : Decidable (Received t t' id) :=
  inferInstanceAs (Decidable (_ ∨ _))

/-- A connection to a path comes to the socket that listens there. -/
theorem sent_to_address_path : ∃ s s' : SocketSys,
    s.step (.resume 0 (.pathExists true true)) = some s' ∧ Received s.table s'.table 1 ∧
    ∃ a, (s.table.objs 1).localAddr = some a ∧ Serves a (.unix "/run/app.sock") := by
  obtain ⟨s, hs, ht, ha, hstep⟩ := Lts.Reach.exists_of_execIf step
    (fun s act => s.bindsAllowed act = true) (new 8 true false)
    (listenAt "/run/app.sock" ++ [.call (.connect 2 (.unix "/run/app.sock") none true)])
    (P := fun s => s.target (.resume 0 (.pathExists true true)) = some (.unix "/run/app.sock") ∧
      s.table.apart (.unix "/run/app.sock") = true ∧
      ((s.step (.resume 0 (.pathExists true true))).map fun s' =>
        decide (Received s.table s'.table 1)) = some true) (by decide +kernel)
  obtain ⟨s', hs', hr⟩ := Option.map_eq_some_iff.mp hstep
  have hrec : Received s.table s'.table 1 := of_decide_eq_true hr
  exact ⟨s, s', hs', hrec, sent_to_address hs ht ha hs' 1 hrec⟩

/-- A connection to a host and a port comes to a socket that listens at a path, which has the same
key. -/
theorem sent_to_address_fails :
    addrKey (.inet "127.0.0.1" 8080) = addrKey (.unix "127.0.0.1:8080") ∧
    ∃ s s' : SocketSys, Lts.Reach step Lts.Any (new 8 true false) s ∧
      s.step (.call (.connect 2 (.inet "127.0.0.1" 8080) none true)) = some s' ∧
      Received s.table s'.table 1 ∧
      ¬ ∃ a, (s.table.objs 1).localAddr = some a ∧ Serves a (.inet "127.0.0.1" 8080) := by
  refine ⟨by decide +kernel, ?_⟩
  obtain ⟨s, hs, haddr, hstep⟩ := Lts.Reach.exists_of_exec step (new 8 true false)
    (listenAt "127.0.0.1:8080") (P := fun s =>
      (s.table.objs 1).localAddr = some (.unix "127.0.0.1:8080") ∧
        ((s.step (.call (.connect 2 (.inet "127.0.0.1" 8080) none true))).map fun s' =>
          decide (Received s.table s'.table 1)) = some true) (by decide +kernel)
  obtain ⟨s', hs', hr⟩ := Option.map_eq_some_iff.mp hstep
  refine ⟨s, s', hs, hs', of_decide_eq_true hr, ?_⟩
  rintro ⟨a, ha, hserves⟩
  cases Option.some.inj (haddr.symm.trans ha)
  exact hserves

end SocketSys

end SecureExec.Socket
