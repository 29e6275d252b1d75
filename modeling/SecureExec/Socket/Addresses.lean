import SecureExec.Lib.Index
import SecureExec.Socket.Turns

/-!
# Socket — Addresses — who is found under an address

`listeners` and `udpBindings` are an index of the sockets by the key of their address
(`SocketTable.index`): a bound socket needs the entry of its kind, a listening one that of
`listeners`.  The index is consistent in every run in which no entry is overwritten that a bound
or listening socket needs, no entry is left behind under an old address, and nothing is registered
for a socket that is gone.  SO_REUSEADDR overwrites such entries.
-/

namespace SecureExec.Socket
open SecureExec Kernel SocketTable

namespace SocketTable

variable {A : Asked} {s : KernelSocket} {t t' : SocketTable}

def isDgram (t : SocketTable) (id : Nat) : Bool := (t.objs id).type == SOCK_DGRAM

/-- The map for a kind of sockets. -/
def bindings (t : SocketTable) (dgram : Bool) : OMap String Nat :=
  if dgram then t.udpBindings else t.listeners

/-- The two maps as an index of the sockets. -/
def index (t : SocketTable) : Index Bool String Nat where
  entry := fun d k => (t.bindings d).get k
  live := fun id => t.has id = true
  key := fun id => (t.objs id).localAddr.map addrKey
  kind := t.isDgram
  needs := fun d id =>
    (t.objs id).state = .bound ∧ t.isDgram id = d ∨ (t.objs id).state = .listening ∧ d = false

theorem index_new (maxSockets : Nat) (vfs hostAdapter : Bool) :
    (new maxSockets vfs hostAdapter).index.Consistent where
  names := fun d k x h => by cases d <;> cases h
  held := fun d x h => by simp [index, has, new] at h

/-! ### Effects that leave the entries alone -/

theorem index_addrLike (h : t.index.Consistent) (ha : AddrLike t t') : t'.index.Consistent := by
  have hlive : ∀ x, t'.has x = t.has x := fun x => by rw [has, has, ha.sockets]
  have hdgram : ∀ x, t'.isDgram x = t.isDgram x := fun x => by
    rw [isDgram, isDgram, (ha.objs x).type]
  refine h.quiet ?_ (fun x hx => ?_) (fun x _ => ?_) (fun x _ => hdgram x) fun d x hx hn => ?_
  · simp only [index, bindings, ha.listeners, ha.udpBindings]
  · exact (hlive x).trans hx
  · rcases (ha.objs x).addr with h' | h'
    · exact .inl (congrArg (Option.map addrKey) h')
    · exact .inr (congrArg (Option.map addrKey) h')
  · refine ⟨(hlive x).symm.trans hx, .inl ?_⟩
    rcases hn with ⟨hs, hd⟩ | ⟨hs, hd⟩
    · exact .inl ⟨((ha.objs x).state (.inl hs)).symm.trans hs, (hdgram x).symm.trans hd⟩
    · exact .inr ⟨((ha.objs x).state (.inr hs)).symm.trans hs, hd⟩

theorem index_add (h : t.index.Consistent) (ht : Sound t)
    (hs : s.state = .created ∨ s.state = .connected) : (t.add s).index.Consistent := by
  have hobj : ∀ x, t.has x = true → (t.add s).objs x = t.objs x := fun x hx => add_objs_of_ne t (Nat.ne_of_lt (ht.below x hx)) _
  refine h.quiet rfl (fun x hx => ?_) (fun x hx => .inl ?_) (fun x hx => ?_) fun d x hx hn => ?_
  · exact (has_iff _ x).mpr (List.mem_append_left _ ((has_iff t x).mp hx))
  · simp only [index, hobj x hx]
  · simp only [index, isDgram, hobj x hx]
  · by_cases hnext : x = t.nextSocketId
    · -- the new socket is neither bound nor listening
      subst hnext
      rcases hs with hs | hs
      · simp [index, hs] at hn
      · simp [index, hs] at hn
    · have hlive : t.has x = true := by
        rw [has_iff]
        have hmem := (has_iff _ x).mp hx
        exact (List.mem_append.mp hmem).resolve_right fun hs => hnext (List.mem_singleton.mp hs)
      refine ⟨hlive, .inl ?_⟩
      simpa only [index, isDgram, hobj x hlive] using hn

theorem AddrLike.modify (t : SocketTable) (id : Nat) {g : KernelSocket → KernelSocket}
    (h : AddrObj (t.objs id) (g (t.objs id))) : AddrLike t (t.modify id g) := by
  refine ⟨rfl, rfl, rfl, fun i => ?_⟩
  by_cases hi : i = id
  · subst hi
    rw [modify_objs_self]
    exact h
  · rw [modify_objs_of_ne t hi]
    exact .refl _

theorem index_link (h : t.index.Consistent) (a b : Nat) : (t.linkPeers a b).index.Consistent := by
  have hobj : ∀ (t : SocketTable) i p, AddrObj (t.objs i)
      { t.objs i with peerId := p, state := .connected } := fun t i p =>
    ⟨.inl rfl, rfl, fun hs => by simp at hs⟩
  exact index_addrLike (index_addrLike h (.modify t a (hobj t a (some b))))
    (.modify _ b (hobj _ b (some a)))

variable {id : Nat}

theorem holds_of_registered (h : t.registered id = true) : t.index.Holds false id := by
  unfold registered at h
  split at h
  · cases h
  · rename_i addr ha
    refine ⟨addrKey addr, ?_, eq_of_beq h⟩
    simp only [index, ha, Option.map_some]

/-- A socket that has its entry begins to listen. -/
theorem index_listen (h : t.index.Consistent) (hm : t.mayListen id = true) :
    (t.setState id .listening).index.Consistent := by
  have haddr : ∀ x, ((t.setState id .listening).objs x).localAddr = (t.objs x).localAddr := fun x =>
    modify_field t id x (·.localAddr) rfl
  have htype : ∀ x, ((t.setState id .listening).objs x).type = (t.objs x).type := fun x =>
    modify_field t id x (·.type) rfl
  refine h.quiet rfl (fun _ hx => hx) (fun x _ => .inl ?_) (fun x _ => ?_) fun d x hx hn =>
    ⟨hx, ?_⟩
  · simp only [index, haddr]
  · simp only [index, isDgram, htype]
  · by_cases hid : x = id
    · subst hid
      rcases hn with ⟨hs, -⟩ | ⟨-, hd⟩
      · rw [setState, modify_objs_self] at hs
        cases hs
      · have hlive : t.has x = true := hx
        rw [mayListen, hlive] at hm
        rw [hd]
        exact .inr (holds_of_registered hm)
    · refine .inl ?_
      simpa only [index, isDgram, setState, modify_objs_of_ne t hid] using hn

/-! ### An address is registered -/

theorem bindings_setAddr (t : SocketTable) (id : Nat) (addr : SockAddr) (d : Bool) :
    (t.setAddr id addr).bindings d =
      if d = t.isDgram id then (t.bindings d).set (addrKey addr) id else t.bindings d := by
  unfold setAddr isDgram bindings
  by_cases hd : (t.objs id).type = SOCK_DGRAM
  · cases d <;> simp [hd]
  · cases d <;> simp [hd]

theorem entry_setAddr (t : SocketTable) (id : Nat) (addr : SockAddr) (d : Bool) (k : String) :
    (t.setAddr id addr).index.entry d k =
      if d = t.isDgram id ∧ k = addrKey addr then some id else t.index.entry d k := by
  have hentry : (t.setAddr id addr).index.entry d k = ((t.setAddr id addr).bindings d).get k := rfl
  rw [hentry, bindings_setAddr]
  by_cases hd : d = t.isDgram id
  · rw [if_pos hd, OMap.get_set]
    by_cases hk : k = addrKey addr
    · rw [if_pos hk, if_pos ⟨hd, hk⟩]
    · rw [if_neg hk, if_neg fun hc => hk hc.2]
      rfl
  · rw [if_neg hd, if_neg fun hc => hd hc.1]
    rfl

theorem vacant_spec {id y : Nat} {key : String} (hv : t.vacant id key = true)
    (hy : t.index.entry false key = some y) (hne : y ≠ id) : ¬ t.index.needs false y := by
  have hget : t.listeners.get key = some y := hy
  rw [vacant, hget] at hv
  have hstate : (t.objs y).state ≠ .bound ∧ (t.objs y).state ≠ .listening := by
    simpa [hne] using hv
  rintro (⟨hs, -⟩ | ⟨hs, -⟩)
  · exact hstate.1 hs
  · exact hstate.2 hs

theorem udpVacant_spec {id y : Nat} {key : String} (hv : t.udpVacant id key = true)
    (hy : t.index.entry true key = some y) (hne : y ≠ id) : ¬ t.index.needs true y := by
  have hget : t.udpBindings.get key = some y := hy
  rw [udpVacant, hget] at hv
  have hstate : (t.objs y).state ≠ .bound := by simpa [hne] using hv
  rintro (⟨hs, -⟩ | ⟨-, hf⟩)
  · exact hstate hs
  · cases hf

variable {addr : SockAddr}

/-- What the check of a registration says. -/
theorem mayRegister_spec (hm : t.mayRegister id addr = true) :
    t.has id = true ∧
    (∀ d k, t.index.key id = some k → t.index.entry d k = some id → k = addrKey addr) ∧
    ∀ y, t.index.entry (t.isDgram id) (addrKey addr) = some y → y ≠ id →
      ¬ t.index.needs (t.isDgram id) y := by
  simp only [mayRegister, Bool.and_eq_true] at hm
  obtain ⟨⟨hlive, hother⟩, hvacant⟩ := hm
  refine ⟨hlive, fun d k hk he => ?_, fun y hy hne => ?_⟩
  · obtain ⟨old, ha, rfl⟩ := Option.map_eq_some_iff.mp hk
    simp only [noOtherEntry, ha, Bool.or_eq_true, beq_iff_eq, Bool.and_eq_true, bne_iff_ne,
      ne_eq] at hother
    refine hother.resolve_right fun hnone => ?_
    cases d with
    | false => exact hnone.1 he
    | true => exact hnone.2 he
  · cases hd : t.isDgram id with
    | true =>
        rw [hd] at hy
        rw [if_pos (eq_of_beq hd)] at hvacant
        exact udpVacant_spec hvacant hy hne
    | false =>
        rw [hd] at hy
        rw [if_neg (by simpa [isDgram] using hd)] at hvacant
        exact vacant_spec hvacant hy hne

theorem index_register (h : t.index.Consistent)
    (hm : t.mayRegister id addr = true) : (t.setAddr id addr).index.Consistent := by
  obtain ⟨hlive, hother, hvacant⟩ := mayRegister_spec hm
  have hself : (t.setAddr id addr).objs id =
      { t.objs id with localAddr := some addr, state := .bound } := by
    rw [setAddr_objs, modify_objs_self]
  have hobj : ∀ y, y ≠ id → (t.setAddr id addr).objs y = t.objs y := fun y hy => by
    rw [setAddr_objs, modify_objs_of_ne t hy]
  have hkind : ∀ y, (t.setAddr id addr).isDgram y = t.isDgram y := by
    intro y
    rw [isDgram, setAddr_objs, modify_field t id y (·.type) rfl, isDgram]
  refine h.assign (x := id) (k := addrKey addr) (fun d k => ?_) hlive (fun y => ?_) ?_
    (fun y hy => ?_) hkind hvacant (fun d hn => ?_) fun d y hy hn => ?_
  · -- no other entry names the socket, so that none has to go
    have hnone : ¬ (d = t.isDgram id ∧ k = addrKey addr) → t.index.entry d k ≠ some id := by
      intro hnot he
      obtain ⟨-, hk, hd⟩ := h.names d k id he
      exact hnot ⟨hd.symm, hother d k hk he⟩
    rw [entry_setAddr]
    split
    · rw [if_pos (by assumption)]
    · rename_i hnot
      exact ((if_neg hnot).trans (if_neg (hnone hnot))).symm
  · simp only [index, has, (setAddr_base t id addr).1]
  · simp only [index, hself, Option.map_some]
  · simp only [index, hobj y hy]
  · rcases hn with ⟨-, hd⟩ | ⟨hs, -⟩
    · exact hd.symm.trans (hkind id)
    · rw [hself] at hs
      cases hs
  · simpa only [index, hobj y hy, hkind] using hn

/-! ### An address moves -/

/-- The old entry of `listeners` goes, and the new one comes. -/
theorem entry_rekey (t : SocketTable) (id port : Nat) (d : Bool) (k : String) :
    (t.rekey id port).index.entry d k =
      if d = false ∧ k = addrKey (.inet (hostOf (t.objs id).localAddr) port) then some id
      else if d = false ∧ t.index.key id = some k then none
      else t.index.entry d k := by
  cases d with
  | true => simp [index, bindings, rekey]
  | false =>
      rcases Option.eq_none_or_eq_some (t.objs id).localAddr with ha | ⟨old, ha⟩
      · simp [index, bindings, rekey, ha, OMap.get_set]
      · have hkey : addrKey old = k ↔ k = addrKey old := eq_comm
        simp [index, bindings, rekey, ha, OMap.get_set, OMap.get_delete, hkey]

theorem index_rekey (h : t.index.Consistent) {id port : Nat} (hm : t.mayRekey id port = true) :
    (t.rekey id port).index.Consistent := by
  simp only [mayRekey, Bool.and_eq_true] at hm
  obtain ⟨⟨hlive, hreg⟩, hvacant⟩ := hm
  obtain ⟨key, hkey, hown⟩ := holds_of_registered hreg
  have hkind : t.isDgram id = false := (h.names false key id hown).2.2
  obtain ⟨old, ha, rfl⟩ := Option.map_eq_some_iff.mp hkey
  have hobj : ∀ y, y ≠ id → (t.rekey id port).objs y = t.objs y := fun y hy => by
    rw [rekey_objs, modify_objs_of_ne t hy]
  have hdgram : ∀ y, (t.rekey id port).isDgram y = t.isDgram y := fun y => by
    rw [isDgram, rekey_objs, modify_field t id y (·.type) rfl, isDgram]
  refine h.assign (x := id) (k := addrKey (.inet (hostOf (t.objs id).localAddr) port))
    (fun d k => ?_) hlive (fun y => Iff.rfl) ?_ (fun y hy => ?_) hdgram (fun y hy hne => ?_)
    (fun d hn => ?_) fun d y hy hn => ?_
  · -- the old entry is the only one that names the socket
    have hold : ∀ d, t.index.entry d k = some id → d = false ∧ k = addrKey old := by
      intro d he
      obtain ⟨-, hk, hd⟩ := h.names d k id he
      exact ⟨hd.symm.trans hkind, Option.some.inj (hk.symm.trans hkey)⟩
    have hk : t.index.kind id = false := hkind
    rw [entry_rekey, hk]
    by_cases hnew : d = false ∧ k = addrKey (.inet (hostOf (t.objs id).localAddr) port)
    · rw [if_pos hnew, if_pos hnew]
    · rw [if_neg hnew, if_neg hnew]
      by_cases he : t.index.entry d k = some id
      · obtain ⟨hd, hk'⟩ := hold d he
        rw [if_pos he, if_pos ⟨hd, hk' ▸ hkey⟩]
      · rw [if_neg he, if_neg]
        rintro ⟨rfl, hk'⟩
        cases Option.some.inj (hk'.symm.trans hkey)
        exact he hown
  · simp only [index, rekey_objs, modify_objs_self, Option.map_some]
  · simp only [index, hobj y hy]
  · have hk : t.index.kind id = false := hkind
    rw [hk] at hy ⊢
    exact vacant_spec hvacant hy hne
  · rcases hn with ⟨-, hd⟩ | ⟨-, hd⟩
    · exact hd.symm.trans (hdgram id)
    · exact hd.trans hkind.symm
  · simpa only [index, hobj y hy, hdgram] using hn

/-! ### A socket is destroyed -/

theorem bindings_deregister (ha : (t.objs id).localAddr = some addr) (d : Bool) :
    (t.deregister id).bindings d =
      if (t.bindings d).get (addrKey addr) = some id then (t.bindings d).delete (addrKey addr)
      else t.bindings d := by
  unfold deregister
  rw [ha]
  cases d with
  | false => rfl
  | true => rfl

/-- The entry of the socket's key goes, if it is its own. -/
theorem entry_deregister (t : SocketTable) (id : Nat) (d : Bool) (k : String) :
    (t.deregister id).index.entry d k =
      if t.index.key id = some k ∧ t.index.entry d k = some id then none
      else t.index.entry d k := by
  rcases Option.eq_none_or_eq_some (t.objs id).localAddr with ha | ⟨addr, ha⟩
  · have hkey : t.index.key id = none := congrArg (Option.map addrKey) ha
    unfold deregister
    rw [ha, hkey, if_neg fun hc => by cases hc.1]
  · have hkey : t.index.key id = some (addrKey addr) := congrArg (Option.map addrKey) ha
    have hentry : (t.deregister id).index.entry d k = ((t.deregister id).bindings d).get k := rfl
    rw [hentry, bindings_deregister ha, hkey]
    by_cases hown : (t.bindings d).get (addrKey addr) = some id
    · rw [if_pos hown, OMap.get_delete]
      by_cases hk : k = addrKey addr
      · subst hk
        rw [if_pos rfl, if_pos ⟨rfl, hown⟩]
      · rw [if_neg hk, if_neg fun hc => hk (Option.some.inj hc.1).symm]
        rfl
    · rw [if_neg hown, if_neg]
      · rfl
      · rintro ⟨hk, he⟩
        cases Option.some.inj hk
        exact hown he

theorem entry_finish (t : SocketTable) (id : Nat) (d : Bool) (k : String) :
    (t.finish id).index.entry d k =
      if t.index.key id = some k ∧ t.index.entry d k = some id then none
      else t.index.entry d k := by
  let t₁ := (t.modify id ({ · with backlog := [] })).clearPeer id
  have hkey : (t₁.closeHosts id).index.key id = t.index.key id := by
    simp only [index]
    rw [closeHosts_field _ id id (·.localAddr) fun _ _ _ _ => rfl,
      clearPeer_field _ id id (·.localAddr) (fun _ _ => rfl) fun _ _ => rfl,
      modify_field t id id (·.localAddr) rfl]
  have hentry : (t₁.closeHosts id).index.entry d k = t.index.entry d k := by
    obtain ⟨-, -, hl, hu⟩ := clearPeer_base (t.modify id ({ · with backlog := [] })) id
    cases d with
    | false => exact congrArg (·.get k) hl
    | true => exact congrArg (·.get k) hu
  have hfinish : (t.finish id).index.entry d k =
      ((t₁.closeHosts id).deregister id).index.entry d k := rfl
  rw [hfinish, entry_deregister, hkey, hentry]

theorem index_finish (h : t.index.Consistent) (ht : Sound t) (id : Nat) :
    (t.finish id).index.Consistent := by
  have hkind : ∀ y, (t.finish id).isDgram y = t.isDgram y := fun y => by
    rw [isDgram, isDgram, (finish_addr t id y).2]
  refine h.drop (x := id) (fun d k => ?_) (fun y => ?_) (fun y => ?_) hkind fun d y hy hn => ?_
  · rw [entry_finish]
    by_cases he : t.index.entry d k = some id
    · rw [if_pos ⟨(h.names d k id he).2.1, he⟩, if_pos he]
    · rw [if_neg fun hc => he hc.2, if_neg he]
  · simp only [index, has_iff, finish_sockets, ht.nodup.mem_erase_iff]
    exact and_comm
  · simp only [index, (finish_addr t id y).1]
  · have hs : ((t.finish id).objs y).state = (t.objs y).state := by rw [finish_state, if_neg hy]
    simpa only [index, hs, hkind] using hn

/-! ### Every effect -/

/-- **Every effect whose addresses are checked.** -/
theorem index_effect (hA : A.addrs) (h : t.index.Consistent) (ht : Sound t)
    (he : Effect A t t') : t'.index.Consistent := by
  cases he with
  | change hc => exact index_addrLike h hc.calm.addrs
  | add s hs _ => exact index_add h ht hs.state
  | queue l c _ _ =>
      exact index_addrLike (index_addrLike h (.modify t l ⟨.inl rfl, rfl, fun _ => rfl⟩))
        (Calm.wakeAccepter _ l).addrs
  | link a b _ _ _ _ _ _ => exact index_link h a b
  | unlink id p _ _ _ => exact index_addrLike h (.modify t id ⟨.inl rfl, rfl, fun _ => rfl⟩)
  | register id addr _ hm _ _ _ => exact index_register h (hm hA)
  | listen id hm _ => exact index_listen h (hm hA)
  | rekey id port _ hm _ => exact index_rekey h (hm hA)
  | finish id _ => exact index_finish h ht id

theorem index_effects (hA : A.addrs) (h : t.index.Consistent) (ht : Sound t)
    (he : Effects A t t') : t'.index.Consistent := by
  induction he with
  | refl => exact h
  | tail hr he ih => exact index_effect hA ih (ht.effects hr) he

/-! ### What is found -/

theorem findListener_of_get (h : t.listeners.get (addrKey addr) = some id) (hlive : t.has id = true)
    (hs : (t.objs id).state = .listening) : t.findListener addr = some id := by
  have hget : t.getListeningSocket (addrKey addr) = some id := by
    simp [getListeningSocket, h, hlive, hs]
  cases addr with
  | unix path => exact hget
  | inet host port => simp [findListener, hget]

theorem findBoundUdp_of_get
    (h : t.udpBindings.get (addrKey addr) = some id) (hlive : t.has id = true)
    (hd : (t.objs id).type = SOCK_DGRAM) : t.findBoundUdp addr = some id := by
  have hget : t.getBoundUdpSocket (addrKey addr) = some id := by
    simp [getBoundUdpSocket, h, hlive, hd]
  cases addr with
  | unix path => exact hget
  | inet host port => simp [findBoundUdp, hget]

/-- The registries are right: an entry names a socket of the table with that address, a listening
socket is the one `findListener` returns for its address, and so is the only one there, and a
bound socket is the one registered under its address. -/
structure AddressesOk (t : SocketTable) : Prop where
  listeners : ∀ key id, t.listeners.get key = some id → t.has id = true ∧
    ∃ addr, (t.objs id).localAddr = some addr ∧ addrKey addr = key
  udpBindings : ∀ key id, t.udpBindings.get key = some id → t.has id = true ∧
    ∃ addr, (t.objs id).localAddr = some addr ∧ addrKey addr = key
  listening : ∀ id, t.has id = true → (t.objs id).state = .listening →
    ∃ addr, (t.objs id).localAddr = some addr ∧ t.findListener addr = some id
  unique : ∀ id id', t.has id = true → t.has id' = true → (t.objs id).state = .listening →
    (t.objs id').state = .listening → (t.objs id).localAddr = (t.objs id').localAddr → id = id'
  bound : ∀ id, t.has id = true → (t.objs id).state = .bound →
    ∃ addr, (t.objs id).localAddr = some addr ∧
      if (t.objs id).type = SOCK_DGRAM then t.findBoundUdp addr = some id
      else t.listeners.get (addrKey addr) = some id

theorem addressesOk_of_consistent (h : t.index.Consistent) : AddressesOk t where
  listeners := fun key id hk => by
    obtain ⟨hlive, hkey, -⟩ := h.names false key id hk
    exact ⟨hlive, Option.map_eq_some_iff.mp hkey⟩
  udpBindings := fun key id hk => by
    obtain ⟨hlive, hkey, -⟩ := h.names true key id hk
    exact ⟨hlive, Option.map_eq_some_iff.mp hkey⟩
  listening := fun id hlive hs => by
    obtain ⟨key, hkey, hent⟩ := h.held false id hlive (.inr ⟨hs, rfl⟩)
    obtain ⟨addr, ha, rfl⟩ := Option.map_eq_some_iff.mp hkey
    exact ⟨addr, ha, findListener_of_get hent hlive hs⟩
  unique := fun id id' hlive hlive' hs hs' ha =>
    h.unique hlive hlive' (d := false) (.inr ⟨hs, rfl⟩) (.inr ⟨hs', rfl⟩)
      (congrArg (Option.map addrKey) ha)
  bound := fun id hlive hs => by
    obtain ⟨key, hkey, hent⟩ := h.held (t.isDgram id) id hlive (.inl ⟨hs, rfl⟩)
    obtain ⟨addr, ha, rfl⟩ := Option.map_eq_some_iff.mp hkey
    refine ⟨addr, ha, ?_⟩
    split
    · rename_i hd
      rw [isDgram, hd] at hent
      exact findBoundUdp_of_get hent hlive hd
    · rename_i hd
      rw [isDgram, beq_false_of_ne hd] at hent
      exact hent

end SocketTable

/-! ### Runs -/

namespace SocketSys

open SocketTable

/-- Addresses are checked. -/
def addrsAsked : Asked := ⟨False, True, False, False, False, fun _ => True⟩

/-- What a run whose addresses are checked keeps. -/
structure Indexed (s : SocketSys) : Prop where
  ok : s.Ok
  index : s.table.index.Consistent

namespace Indexed

variable {s s' : SocketSys}

theorem new (maxSockets : Nat) (vfs hostAdapter : Bool) :
    Indexed (SocketSys.new maxSockets vfs hostAdapter) :=
  ⟨.new maxSockets vfs hostAdapter, index_new maxSockets vfs hostAdapter⟩

theorem step (h : s.Indexed) {act : SocketAction} (hc : s.addrsAllowed act = true)
    (hs : s.step act = some s') : s'.Indexed := by
  have hA : Meets addrsAsked s act :=
    ⟨False.elim, fun _ => hc, False.elim, False.elim, False.elim, fun _ _ => trivial⟩
  obtain ⟨he, hok⟩ := step_effects h.ok hA hs
  exact ⟨hok, index_effects trivial h.index h.ok.sound he⟩

/-- Effects that need no check. -/
theorem addressesOk (h : s.Indexed) {t : SocketTable}
    (he : Effects addrsAsked s.table t) : AddressesOk t :=
  addressesOk_of_consistent (index_effects trivial h.index h.ok.sound he)

end Indexed

/-- **The address registries.**  In a run whose addresses are checked, the registries are right in
every state, and after every `close` and `closeAllForProcess`: what is left in the table is
found. -/
theorem addresses_consistent {maxSockets : Nat} {vfs hostAdapter : Bool} {s : SocketSys}
    (r : Lts.Reach step (fun s act => s.addrsAllowed act = true)
      (new maxSockets vfs hostAdapter) s) :
    AddressesOk s.table ∧
    (∀ id pid, AddressesOk ((close id pid).exec s.table).2) ∧
    ∀ pid, AddressesOk (s.table.closeAllForProcess pid) := by
  have h : s.Indexed := Lts.Reach.invariant (I := Indexed) (.new maxSockets vfs hostAdapter)
    (fun _ _ _ h hc hs => h.step hc hs) r
  refine ⟨h.addressesOk .refl, fun id pid => ?_, fun pid => ?_⟩
  · have hturn : Turns addrsAsked s.table (close id pid) fun _ => [] :=
      .close h.ok.sound pid
    exact h.addressesOk (Prog.state_of_wp (Prog.wp_mono hturn (fun _ _ hq => hq.1) fun _ _ hE => hE))
  · exact h.addressesOk (closeAllForProcess_effects h.ok.sound pid)

/-- Socket 1 listens on port 8080, and socket 2 is bound to `port` with SO_REUSEADDR. -/
def bindBeside (port : Nat) : List SocketAction :=
  [.call (.create 2 SOCK_STREAM 0 7 true), .call (.bind 1 (.inet "127.0.0.1" 8080)),
    .call (.listen 1 8 false (some ⟨true, none⟩)), .call (.create 2 SOCK_STREAM 0 8 true),
    .call (.setsockopt 2 SOL_SOCKET SO_REUSEADDR 1), .call (.bind 2 (.inet "127.0.0.1" port))]

/-- On another port: the listener is found when socket 2 is closed. -/
theorem addresses_consistent_beside : ∃ s : SocketSys,
    Lts.Reach step (fun s act => s.addrsAllowed act = true) (new 8 false false) s ∧
    ∃ addr, (((close 2 8).exec s.table).2.objs 1).localAddr = some addr ∧
      ((close 2 8).exec s.table).2.findListener addr = some 1 := by
  obtain ⟨s, hr, hlive, hstate⟩ := Lts.Reach.exists_of_execIf step
    (fun s act => s.addrsAllowed act = true) (new 8 false false) (bindBeside 8081) (P := fun s => ((close 2 8).exec s.table).2.has 1 = true ∧
      (((close 2 8).exec s.table).2.objs 1).state = .listening) (by decide +kernel)
  exact ⟨s, hr, ((addresses_consistent hr).2.1 2 8).listening 1 hlive hstate⟩

/-- Socket 1 listens on port 8080 and is not found there. -/
def lostListener (t : SocketTable) : Prop :=
  t.has 1 = true ∧ (t.objs 1).state = .listening ∧
    (t.objs 1).localAddr = some (.inet "127.0.0.1" 8080) ∧
    t.findListener (.inet "127.0.0.1" 8080) = none

instance (t : SocketTable) : Decidable (lostListener t) :=
  inferInstanceAs (Decidable (_ ∧ _ ∧ _ ∧ _))

/-- On the same port: the listener is lost, and it stays so when socket 2 is closed. -/
theorem addresses_consistent_fails : ∃ s s' : SocketSys,
    Lts.Reach step Lts.Any (new 8 false false) s ∧ s.step (.call (.close 2 8)) = some s' ∧
    lostListener s.table ∧ lostListener s'.table := by
  obtain ⟨s, hs, hlost, hclose⟩ := Lts.Reach.exists_of_exec step (new 8 false false)
    (bindBeside 8080) (P := fun s => lostListener s.table ∧
      (s.step (.call (.close 2 8))).any (lostListener ·.table)) (by decide +kernel)
  obtain ⟨s', hs', hlost'⟩ := (Option.any_eq_true _ _).mp hclose
  exact ⟨s, s', hs, hs', hlost, of_decide_eq_true hlost'⟩

end SocketSys

end SecureExec.Socket
