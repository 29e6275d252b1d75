import SecureExec.Socket.Peers

/-!
# Socket — Hosts — who holds the host's objects

A host's socket, listener or UDP socket comes back at any later time, and the call that asked for
it stores it in its socket.  `Takes t h` says that `h` is held by a socket of the table or has been
closed.  It is kept by every effect, provided an object is stored in a socket that is there and has
none of its kind yet; so is that a destroyed socket stays closed (`Resting`), and that no socket of
a process is made beside one that is gone.
-/

namespace SecureExec.Socket
open SecureExec Kernel Prog SocketSys

namespace SocketTable

variable {A : Asked} {t t' : SocketTable} {h : Nat}

/-- The socket holds the host's object. -/
def Holds (s : KernelSocket) (h : Nat) : Prop :=
  s.hostSocket = some h ∨ s.hostListener = some h ∨ s.hostUdpSocket = some h

/-- The host's object is held by a socket of the table, or closed. -/
def Takes (t : SocketTable) (h : Nat) : Prop :=
  h ∈ t.hostClosed ∨ ∃ id, t.has id = true ∧ Holds (t.objs id) h

/-- A socket that was destroyed is closed; the first socket is 1. -/
def Resting (t : SocketTable) : Prop :=
  ∀ id, 0 < id → t.Destroyed id → (t.objs id).state = .closed

/-- The process has no socket. -/
def NoneOf (t : SocketTable) (pid : Nat) : Prop := ∀ id, t.has id = true → (t.objs id).pid ≠ pid

/-! ### Effects -/

/-- No object of the host is dropped, no socket changes its process, and one that is gone its
state. -/
structure HostLike (t t' : SocketTable) : Prop where
  sockets : t'.sockets = t.sockets
  next : t'.nextSocketId = t.nextSocketId
  closed : ∀ h ∈ t.hostClosed, h ∈ t'.hostClosed
  holds : ∀ id h, Holds (t.objs id) h → Holds (t'.objs id) h
  pid : ∀ id, (t'.objs id).pid = (t.objs id).pid
  state : ∀ id, t.has id = false →
    (t'.objs id).state = (t.objs id).state ∨ (t'.objs id).state = .closed

namespace HostLike

theorem refl (t : SocketTable) : HostLike t t :=
  ⟨rfl, rfl, fun _ h => h, fun _ _ h => h, fun _ => rfl, fun _ _ => .inl rfl⟩

theorem trans {t'' : SocketTable} (h₁ : HostLike t t') (h₂ : HostLike t' t'') :
    HostLike t t'' where
  sockets := h₂.sockets.trans h₁.sockets
  next := h₂.next.trans h₁.next
  closed := fun h hc => h₂.closed h (h₁.closed h hc)
  holds := fun id h hh => h₂.holds id h (h₁.holds id h hh)
  pid := fun id => (h₂.pid id).trans (h₁.pid id)
  state := fun id hd => by
    have hd' : t'.has id = false := by rwa [has, h₁.sockets]
    rcases h₂.state id hd' with hs | hs
    · rw [hs]
      exact h₁.state id hd
    · exact .inr hs

variable {g : KernelSocket → KernelSocket}

/-- One object changes. -/
theorem modify (t : SocketTable) (id : Nat)
    (hh : ∀ h, Holds (t.objs id) h → Holds (g (t.objs id)) h)
    (hp : (g (t.objs id)).pid = (t.objs id).pid)
    (hs : (g (t.objs id)).state = (t.objs id).state ∨ (g (t.objs id)).state = .closed ∨
      t.has id = true) : HostLike t (t.modify id g) where
  sockets := rfl
  next := rfl
  closed := fun _ hc => hc
  holds := fun i x hx => by
    by_cases hi : i = id
    · subst hi
      rw [modify_objs_self]
      exact hh x hx
    · rwa [modify_objs_of_ne t hi]
  pid := fun i => modify_field t id i (·.pid) hp
  state := fun i hd => by
    by_cases hi : i = id
    · subst hi
      rw [modify_objs_self]
      refine hs.imp_right fun hc => hc.resolve_right fun hl => ?_
      rw [hd] at hl
      cases hl
    · rw [modify_objs_of_ne t hi]
      exact .inl rfl

/-- The parts of an object that the host's objects depend on. -/
def view (s : KernelSocket) :=
  (s.hostSocket, s.hostListener, s.hostUdpSocket, s.pid, s.state)

theorem of_view (hs : t'.sockets = t.sockets) (hn : t'.nextSocketId = t.nextSocketId)
    (hc : t'.hostClosed = t.hostClosed) (hv : ∀ i, view (t'.objs i) = view (t.objs i)) :
    HostLike t t' := by
  have hv' : ∀ i, _ := fun i => by
    have hi := hv i
    simp only [view, Prod.mk.injEq] at hi
    exact hi
  refine ⟨hs, hn, fun h hh => hc ▸ hh, fun i h hh => ?_, fun i => (hv' i).2.2.2.1,
    fun i _ => .inl (hv' i).2.2.2.2⟩
  rw [Holds, (hv' i).1, (hv' i).2.1, (hv' i).2.2.1]
  exact hh

variable (t) (id : Nat)

/-- Waking changes the queues alone. -/
theorem wakeReaders : HostLike t (t.wakeReaders id) :=
  of_view rfl rfl rfl fun i => wakeReaders_field t id i view fun _ _ => rfl

theorem wakeReader : HostLike t (t.wakeReader id) :=
  of_view rfl rfl rfl fun i => wakeReader_field t id i view fun _ _ => rfl

theorem wakeAccepter : HostLike t (t.wakeAccepter id) :=
  of_view rfl rfl rfl fun i => wakeAccepter_field t id i view fun _ _ => rfl

/-- A change that the host's objects do not see. -/
theorem same (hg : view (g (t.objs id)) = view (t.objs id)) : HostLike t (t.modify id g) :=
  of_view rfl rfl rfl fun i => modify_field t id i view hg

theorem shutdownWrite : HostLike t (t.shutdownWrite id) := by
  unfold SocketTable.shutdownWrite
  split
  · exact refl t
  · split
    · exact (same t _ rfl).trans (wakeReaders _ _)
    · exact refl t

theorem shutdownRead : HostLike t (t.shutdownRead id) :=
  (same t id rfl).trans (wakeReaders _ id)

variable {t}

/-- The state of a socket that is there changes. -/
theorem setState {id : Nat} (hlive : t.has id = true) (state : SocketState) :
    HostLike t (t.setState id state) :=
  modify t id (fun _ hh => hh) rfl (.inr (.inr hlive))

theorem shutDown {id : Nat} (hlive : t.has id = true) (how : ShutdownHow) :
    HostLike t (t.shutDown id how) := by
  have hlive' : ∀ {t' : SocketTable}, HostLike t t' → t'.has id = true := fun hl => by
    rw [has, hl.sockets]
    exact hlive
  cases how with
  | read => exact (shutdownRead t id).trans (setState (hlive' (shutdownRead t id)) _)
  | write => exact (shutdownWrite t id).trans (setState (hlive' (shutdownWrite t id)) _)
  | both =>
      have hboth := (shutdownWrite t id).trans (shutdownRead _ id)
      exact hboth.trans (setState (hlive' hboth) _)

/-- An object is stored where there was none. -/
theorem store {id : Nat} (hlive : t.has id = true)
    (hh : ∀ h, Holds (t.objs id) h → Holds (g (t.objs id)) h)
    (hp : (g (t.objs id)).pid = (t.objs id).pid) : HostLike t (t.modify id g) :=
  modify t id hh hp (.inr (.inr hlive))

/-- **Every change.** -/
theorem change (hA : A.hosts) (hc : Change A t t') : HostLike t t' := by
  cases hc with
  | plain id hg =>
      simp only [kept, keptButAddr, Prod.mk.injEq] at hg
      obtain ⟨-, ⟨-, -, -, hs⟩, hp, -, hsock, hlist, hudp⟩ := hg
      exact same t id (by simp only [view, hs, hp, hsock, hlist, hudp])
  | address id _ hg =>
      simp only [keptButAddr, Prod.mk.injEq] at hg
      obtain ⟨⟨-, -, -, hs⟩, hp, -, hsock, hlist, hudp⟩ := hg
      exact same t id (by simp only [view, hs, hp, hsock, hlist, hudp])
  | shift id c rest _ => exact same t id rfl
  | enqueueReader id _ =>
      exact of_view rfl rfl rfl fun i => enqueueReader_field t id i view fun _ _ => rfl
  | enqueueAccepter id _ =>
      exact of_view rfl rfl rfl fun i => enqueueAccepter_field t id i view fun _ _ => rfl
  | dropReader id x _ => exact same t id rfl
  | dropAccepter id x _ => exact same t id rfl
  | wakeReader id => exact wakeReader t id
  | deliver id data => exact (same t id rfl).trans (wakeReader _ id)
  | consume id rest _ => exact same t id rfl
  | eof id => exact (same t id rfl).trans (wakeReaders _ id)
  | shutdown id how hlive _ => exact shutDown hlive how
  | writeFailed id _ =>
      exact (modify t id (fun _ hh => hh) rfl (.inr (.inl rfl))).trans (wakeReaders _ id)
  | connecting id addr hh _ => exact store (hh hA) (fun _ hx => hx) rfl
  | attach id host addr hh _ =>
      obtain ⟨hlive, hnone⟩ := hh hA
      refine store hlive (fun x hx => ?_) rfl
      exact .inr (hx.resolve_left (by simp [hnone]))
  | connectFailed id hlive hh _ =>
      refine (store hlive (fun x hx => ?_) rfl).trans (wakeReaders _ id)
      exact .inr (hx.resolve_left (by simp [hh hA]))
  | hostListening id host hh =>
      obtain ⟨hlive, hnone⟩ := hh hA
      refine store hlive (fun x hx => ?_) rfl
      rcases hx with hx | hx | hx
      · exact .inl hx
      · rw [hnone] at hx
        cases hx
      · exact .inr (.inr hx)
  | hostUdp id host hh =>
      obtain ⟨hlive, hnone⟩ := hh hA
      refine store hlive (fun x hx => ?_) rfl
      rcases hx with hx | hx | hx
      · exact .inl hx
      · exact .inr (.inl hx)
      · rw [hnone] at hx
        cases hx
  | hostClosed x =>
      exact ⟨rfl, rfl, fun _ hc => List.mem_append_left _ hc, fun _ _ hh => hh, fun _ => rfl,
        fun _ _ => .inl rfl⟩

theorem queue (t : SocketTable) (l c : Nat) :
    HostLike t ((t.modify l fun s => { s with backlog := s.backlog ++ [c] }).wakeAccepter l) :=
  (same t l rfl).trans (wakeAccepter _ l)

theorem link {a b : Nat} (ha : t.has a = true) (hb : t.has b = true) :
    HostLike t (t.linkPeers a b) :=
  (store ha (fun _ hh => hh) rfl).trans (store (t := t.modify a _) hb (fun _ hh => hh) rfl)

theorem register {id : Nat} (hlive : t.has id = true) (addr : SockAddr) :
    HostLike t (t.setAddr id addr) := by
  have hstore : HostLike t (t.modify id ({ · with localAddr := some addr, state := .bound })) :=
    store hlive (fun _ hh => hh) rfl
  refine hstore.trans (of_view (setAddr_base t id addr).1 (setAddr_base t id addr).2 ?_ fun i => ?_)
  · unfold setAddr
    dsimp only
    split
    · rfl
    · rfl
  · rw [setAddr_objs]

theorem rekey (t : SocketTable) (id port : Nat) : HostLike t (t.rekey id port) :=
  of_view rfl rfl rfl fun i => by
    rw [rekey_objs]
    exact modify_field t id i view rfl

variable (hl : HostLike t t')
include hl

theorem takes (ht : Takes t h) : Takes t' h := by
  rcases ht with hc | ⟨id, hlive, hh⟩
  · exact .inl (hl.closed h hc)
  · refine .inr ⟨id, ?_, hl.holds id h hh⟩
    rwa [has, hl.sockets]

theorem resting (hr : Resting t) : Resting t' := by
  rintro id hpos ⟨hlt, hgone⟩
  have hd : t.Destroyed id := by
    rw [hl.next] at hlt
    rw [has, hl.sockets] at hgone
    exact ⟨hlt, hgone⟩
  rcases hl.state id hd.2 with hs | hs
  · exact hs.trans (hr id hpos hd)
  · exact hs

theorem noneOf {pid : Nat} (hn : NoneOf t pid) : NoneOf t' pid := by
  intro id hlive
  rw [hl.pid]
  rw [has, hl.sockets] at hlive
  exact hn id hlive

end HostLike

/-- What an effect of a turn keeps, whose host's objects are checked. -/
structure KeepsHosts (A : Asked) (t t' : SocketTable) : Prop where
  takes : ∀ h, Takes t h → Takes t' h
  gone : ∀ id, t.Destroyed id → t'.Destroyed id
  resting : Resting t → Resting t'
  noneOf : ∀ pid, ¬ A.makes pid → NoneOf t pid → NoneOf t' pid

theorem HostLike.keeps (hl : HostLike t t') : KeepsHosts A t t' := by
  refine ⟨fun _ => hl.takes, fun id hd => ?_, hl.resting, fun _ _ => hl.noneOf⟩
  rw [Destroyed, hl.next, has, hl.sockets]
  exact hd

theorem KeepsHosts.add (ht : Sound t) (hA : A.hosts) {s : KernelSocket}
    (hm : A.makes s.pid ∨ (A.hosts → ∃ l, t.has l = true ∧ (t.objs l).pid = s.pid)) :
    KeepsHosts A t (t.add s) := by
  have hobj : ∀ id, t.has id = true → (t.add s).objs id = t.objs id := fun id hid =>
    add_objs_of_ne t (Nat.ne_of_lt (ht.below id hid)) s
  refine ⟨fun h hh => ?_, fun id hd => ?_, fun hr id hpos hd => ?_, fun pid hp hn id hlive => ?_⟩
  · rcases hh with hc | ⟨id, hlive, hh⟩
    · exact .inl hc
    · refine .inr ⟨id, ?_, ?_⟩
      · exact (has_iff _ id).mpr (List.mem_append_left _ ((has_iff t id).mp hlive))
      · rwa [hobj id hlive]
  · refine ⟨Nat.lt_succ_of_lt hd.1, Bool.eq_false_iff.mpr fun hl => ?_⟩
    rcases List.mem_append.mp ((has_iff _ id).mp hl) with hmem | hmem
    · exact Bool.eq_false_iff.mp hd.2 ((has_iff t id).mpr hmem)
    · exact Nat.ne_of_lt hd.1 (List.mem_singleton.mp hmem)
  · obtain ⟨hlt, hgone⟩ := hd
    have hnot : id ∉ t.sockets ++ [t.nextSocketId] := fun hmem =>
      Bool.eq_false_iff.mp hgone ((has_iff _ id).mpr hmem)
    rw [List.mem_append, not_or, List.mem_singleton] at hnot
    rw [add_objs_of_ne t hnot.2]
    refine hr id hpos ⟨Nat.lt_of_le_of_ne (Nat.le_of_lt_succ hlt) hnot.2, ?_⟩
    exact Bool.eq_false_iff.mpr fun hl => hnot.1 ((has_iff t id).mp hl)
  · rcases List.mem_append.mp ((has_iff _ id).mp hlive) with hmem | hmem
    · have hl := (has_iff t id).mpr hmem
      rw [hobj id hl]
      exact hn id hl
    · rw [List.mem_singleton.mp hmem, add_objs_self]
      rcases hm with hm | hm
      · rintro rfl
        exact hp hm
      · obtain ⟨l, hl, hpid⟩ := hm hA
        exact hpid ▸ hn l hl

/-! ### A socket is destroyed -/

/-- The host's part of an object. -/
def hostPart (s : KernelSocket) := (s.hostSocket, s.hostListener, s.hostUdpSocket)

variable (t)

theorem finish_hostPart {id i : Nat} (hi : i ≠ id) :
    hostPart ((t.finish id).objs i) = hostPart (t.objs i) := by
  unfold finish
  dsimp only
  rw [wakeAccepters_field _ id i hostPart fun _ _ => rfl,
    wakeReaders_field _ id i hostPart fun _ _ => rfl, modify_objs_of_ne _ hi, deregister_objs]
  unfold closeHosts
  dsimp only
  rw [modify_objs_of_ne _ hi, clearPeer_field _ id i hostPart (fun _ _ => rfl) fun _ _ => rfl]
  exact modify_field t id i hostPart rfl

theorem clearPeer_hostClosed (id : Nat) : (t.clearPeer id).hostClosed = t.hostClosed := by
  unfold clearPeer
  split
  · rfl
  · split
    · rfl
    · rfl

theorem deregister_hostClosed (id : Nat) : (t.deregister id).hostClosed = t.hostClosed := by
  unfold deregister
  split
  · rfl
  · rfl

/-- What the socket held is closed. -/
theorem finish_hostClosed (id : Nat) :
    (t.finish id).hostClosed = t.hostClosed ++ (t.objs id).hostSocket.toList ++
      (t.objs id).hostListener.toList ++ (t.objs id).hostUdpSocket.toList := by
  let t₁ := (t.modify id ({ · with backlog := [] })).clearPeer id
  have hpart : hostPart (t₁.objs id) = hostPart (t.objs id) :=
    (clearPeer_field _ id id hostPart (fun _ _ => rfl) fun _ _ => rfl).trans
      (modify_field t id id hostPart rfl)
  simp only [hostPart, Prod.mk.injEq] at hpart
  obtain ⟨hsock, hlist, hudp⟩ := hpart
  have hfin : (t.finish id).hostClosed = ((t₁.closeHosts id).deregister id).hostClosed := rfl
  have hclose : (t₁.closeHosts id).hostClosed = t₁.hostClosed ++ (t₁.objs id).hostSocket.toList ++
      (t₁.objs id).hostListener.toList ++ (t₁.objs id).hostUdpSocket.toList := rfl
  rw [hfin, deregister_hostClosed, hclose, hsock, hlist, hudp]
  rw [clearPeer_hostClosed]
  rfl

theorem finish_pid (id i : Nat) : ((t.finish id).objs i).pid = (t.objs i).pid := by
  rw [finish_field t id i (·.pid) (fun _ _ _ _ => rfl) (fun _ _ _ _ => rfl) (fun _ _ => rfl)
    fun _ _ => rfl, clearPeer_field _ id i (·.pid) (fun _ _ => rfl) fun _ _ => rfl,
    modify_field t id i (·.pid) rfl]

variable {t}

theorem has_of_finish {id x : Nat} (h : (t.finish id).has x = true) : t.has x = true := by
  rw [has_iff, finish_sockets] at h
  exact (has_iff t x).mpr (List.mem_of_mem_erase h)

theorem KeepsHosts.finish (t : SocketTable) (id : Nat) : KeepsHosts A t (t.finish id) := by
  refine ⟨fun h hh => ?_, fun i hd => ?_, fun hr i hpos hd => ?_, fun pid _ hn i hlive => ?_⟩
  · rcases hh with hc | ⟨i, hlive, hh⟩
    · refine .inl ?_
      rw [finish_hostClosed]
      simp [hc]
    · by_cases hi : i = id
      · subst hi
        refine .inl ?_
        rw [finish_hostClosed]
        rcases hh with hh | hh | hh
        · simp [hh]
        · simp [hh]
        · simp [hh]
      · have hpart := finish_hostPart t hi
        simp only [hostPart, Prod.mk.injEq] at hpart
        refine .inr ⟨i, has_finish t hi hlive, ?_⟩
        rwa [Holds, hpart.1, hpart.2.1, hpart.2.2]
  · rw [Destroyed, finish_nextSocketId]
    exact ⟨hd.1, Bool.eq_false_iff.mpr fun hl => Bool.eq_false_iff.mp hd.2 (has_of_finish hl)⟩
  · rw [finish_state]
    split
    · rfl
    · rename_i hi
      refine hr i hpos ⟨?_, Bool.eq_false_iff.mpr fun hl => ?_⟩
      · have hlt := hd.1
        rwa [finish_nextSocketId] at hlt
      · exact Bool.eq_false_iff.mp hd.2 (has_finish t hi hl)
  · rw [finish_pid]
    exact hn i (has_of_finish hlive)

/-- **Every effect whose host's objects are checked.** -/
theorem KeepsHosts.effect (hA : A.hosts) (ht : Sound t) (he : Effect A t t') :
    KeepsHosts A t t' := by
  cases he with
  | change hc => exact (HostLike.change hA hc).keeps
  | add s _ hm => exact .add ht hA hm
  | queue l c _ _ => exact (HostLike.queue t l c).keeps
  | link a b _ hb _ _ hh _ =>
      exact (HostLike.link (hh hA) (Bool.and_eq_true_iff.mp hb).1).keeps
  | unlink id p _ _ _ => exact (HostLike.same t id rfl).keeps
  | register id addr _ _ _ hh _ => exact (HostLike.register (hh hA) addr).keeps
  | listen id _ hh => exact (HostLike.setState (hh (.inl hA)) .listening).keeps
  | rekey id port _ _ _ => exact (HostLike.rekey t id port).keeps
  | finish id _ => exact .finish t id

theorem KeepsHosts.effects (hA : A.hosts) (ht : Sound t) (he : Effects A t t') :
    KeepsHosts A t t' := by
  induction he with
  | refl => exact (HostLike.refl t).keeps
  | tail hr he ih =>
      have hstep := KeepsHosts.effect hA (ht.effects hr) he
      exact ⟨fun h hh => hstep.takes h (ih.takes h hh), fun id hd => hstep.gone id (ih.gone id hd),
        fun hrest => hstep.resting (ih.resting hrest),
        fun pid hp hn => hstep.noneOf pid hp (ih.noneOf pid hp hn)⟩

/-- Sockets go, and none changes its process. -/
structure Shrinks (t t' : SocketTable) : Prop where
  has : ∀ id, t'.has id = true → t.has id = true
  pid : ∀ id, (t'.objs id).pid = (t.objs id).pid

theorem Shrinks.refl (t : SocketTable) : Shrinks t t := ⟨fun _ h => h, fun _ => rfl⟩

theorem Shrinks.trans {t'' : SocketTable} (h : Shrinks t t') (h' : Shrinks t' t'') :
    Shrinks t t'' :=
  ⟨fun id hl => h.has id (h'.has id hl), fun id => (h'.pid id).trans (h.pid id)⟩

theorem Shrinks.finish (t : SocketTable) (id : Nat) : Shrinks t (t.finish id) :=
  ⟨fun _ hl => has_of_finish hl, finish_pid t id⟩

theorem Shrinks.foldl {β : Type} {f : SocketTable → β → SocketTable}
    (hf : ∀ t b, Shrinks t (f t b)) (l : List β) (t : SocketTable) : Shrinks t (l.foldl f t) := by
  induction l generalizing t with
  | nil => exact .refl t
  | cons b l ih => exact (hf t b).trans (ih (f t b))

theorem Shrinks.destroyWithin : ∀ (depth : Nat) (t : SocketTable) (id : Nat),
    Shrinks t (destroyWithin depth t id)
  | 0, t, id => .finish t id
  | depth + 1, t, id => by
      refine (Shrinks.foldl (fun t c => ?_) _ t).trans (.finish _ id)
      split
      · exact Shrinks.destroyWithin depth t c
      · exact .refl t

theorem destroySocket_gone (ht : Sound t) (id : Nat) : (t.destroySocket id).has id = false := by
  have hfinish : ∀ {t : SocketTable}, Sound t → (t.finish id).has id = false := fun ht => by
    rw [Bool.eq_false_iff, Ne, has_iff, finish_sockets, ht.nodup.mem_erase_iff]
    exact fun hc => hc.1 rfl
  unfold destroySocket
  cases t.sockets.length with
  | zero => exact hfinish ht
  | succ depth =>
      rw [destroyWithin]
      exact hfinish (ht.finishes (foldl_destroy (destroyWithin depth) id
        (fun t c ht hc => destroyWithin_finishes depth t c ht hc) (t.objs id).backlog t
        (ht.ordered id) ht).1)

/-- Nothing of the process is left. -/
theorem closeAllForProcess_noneOf (ht : Sound t) (pid : Nat) :
    NoneOf (t.closeAllForProcess pid) pid := by
  let close : SocketTable → Nat → SocketTable := fun t id =>
    if t.has id && (t.objs id).pid == pid then t.destroySocket id else t
  have hclose : ∀ t id, Shrinks t (close t id) := fun t id => by
    show Shrinks t (if _ then _ else _)
    split
    · exact .destroyWithin _ t id
    · exact .refl t
  have hall : ∀ (l : List Nat) (t : SocketTable), Sound t → ∀ id ∈ l,
      (l.foldl close t).has id = true → ((l.foldl close t).objs id).pid ≠ pid := by
    intro l
    induction l with
    | nil => exact fun _ _ id hid => (List.not_mem_nil hid).elim
    | cons x l ih =>
        intro t ht id hid hlive
        have hs : Shrinks (close t x) (l.foldl close (close t x)) := .foldl hclose l _
        have ht' : Sound (close t x) := by
          show Sound (if _ then _ else _)
          split
          · rename_i hc
            exact ht.finishes (destroySocket_finishes ht (Bool.and_eq_true_iff.mp hc).1)
          · exact ht
        rcases List.mem_cons.mp hid with rfl | hid
        · -- the socket is destroyed here, if it is the process's
          have hlive' := hs.has id hlive
          rw [List.foldl_cons, hs.pid, (hclose t id).pid]
          have hlive₀ := (hclose t id).has id hlive'
          intro hpid
          have hc : (t.has id && (t.objs id).pid == pid) = true := by simp [hlive₀, hpid]
          have heq : close t id = t.destroySocket id := if_pos hc
          rw [heq, destroySocket_gone ht id] at hlive'
          cases hlive'
        · exact ih (close t x) ht' id hid hlive
  intro id hlive
  have hs : Shrinks t (t.closeAllForProcess pid) := .foldl hclose t.sockets t
  exact hall t.sockets t ht id ((has_iff t id).mp (hs.has id hlive)) hlive

/-! ### What the calls do with the host's objects -/

/-- The turn takes the host's object. -/
def TurnTakes {α : Type} (t : SocketTable) (h : Nat) (p : Sock α) : Prop :=
  p.wp t (fun _ t' => Takes t' h) fun _ t' => Takes t' h

variable {id : Nat}

theorem takes_of_holds (id : Nat) (hlive : t.has id = true) (hh : Holds (t.objs id) h) :
    Takes t h :=
  .inr ⟨id, hlive, hh⟩

theorem attachHost_takes (hlive : t.has id = true) (addr : SockAddr) :
    TurnTakes t h (attachHost id h addr) := by
  refine wp_bind.mpr (takes_of_holds id hlive ?_)
  exact .inl (congrArg (·.hostSocket) (modify_objs_self t id _))

theorem tcpListening_takes (hlive : t.has id = true) (port : Nat) :
    TurnTakes t h (tcpListening id h port) := by
  have hheld : ∀ t' : SocketTable, t'.has id = t.has id →
      (t'.objs id).hostListener = some h → Takes t' h := fun _ hl hh =>
    takes_of_holds id (hl.trans hlive) (.inr (.inl hh))
  let t₁ := t.modify id ({ · with hostListener := some h, external := true })
  have h₁ : (t₁.objs id).hostListener = some h := by rw [modify_objs_self]
  refine wp_bind.mpr (wp_bind.mpr ?_)
  rw [wp_read]
  split
  · refine wp_bind.mpr (hheld ((t₁.rekey id port).modify id
      ({ · with state := .listening })) rfl ?_)
    rw [modify_field (t₁.rekey id port) id id (·.hostListener) rfl, rekey_objs,
      modify_field t₁ id id (·.hostListener) rfl, h₁]
  · refine wp_bind.mpr (hheld (t₁.modify id ({ · with state := .listening })) rfl ?_)
    rw [modify_field t₁ id id (·.hostListener) rfl, h₁]

theorem udpBound_takes (hlive : t.has id = true) : TurnTakes t h (udpBound id h) := by
  refine wp_bind.mpr (takes_of_holds id hlive ?_)
  exact .inr (.inr (congrArg (·.hostUdpSocket) (modify_objs_self t id _)))

theorem backgroundConnected_takes (addr : SockAddr) :
    TurnTakes t h (backgroundConnected id h addr) := by
  refine wp_bind.mpr ?_
  rw [wp_read]
  split
  · rename_i hc
    exact attachHost_takes (Bool.and_eq_true_iff.mp hc).1 addr
  · exact wp_bind.mpr (.inl (List.mem_append_right _ (List.mem_singleton_self h)))

theorem create_exec {domain type protocol pid : Nat} {known : Bool}
    (hroom : t.sockets.length < t.maxSockets) (hknown : known = true) :
    (create domain type protocol pid known).exec t =
      (.ok t.nextSocketId, t.add (.new domain type protocol pid)) := by
  have hadd : (create domain type protocol pid known).wp t
      (fun a t' => a = t.nextSocketId ∧ t' = t.add (.new domain type protocol pid))
      fun _ _ => False := by
    unfold create
    refine wp_bind.mpr ?_
    rw [wp_read]
    dsimp only [id]
    rw [if_neg (Nat.not_le.mpr hroom), if_neg (by simp [hknown])]
    exact ⟨rfl, rfl⟩
  obtain ⟨a, t', he, rfl, rfl⟩ := returns_iff.mp hadd
  exact he

/-- The pump goes on, or not; nothing changes. -/
theorem pumpOn_takes {host : Nat} {c : Turn Unit} (ht : Takes t h) :
    TurnTakes t h (pumpOn id host >>= fun r => pure (r, c)) := by
  refine wp_bind.mpr (wp_bind.mpr ?_)
  rw [wp_read]
  split
  · exact ht
  · exact ht

/-- The socket for an accepted connection can be made, or the connection is refused. -/
theorem acceptPumped_takes {known : Bool} (host : Nat)
    (hroom : (t.objs id).backlogLimit ≤ (t.objs id).backlog.length ∨
      (t.sockets.length < t.maxSockets ∧ known = true)) :
    TurnTakes t h (acceptPumped id host h known) := by
  refine wp_bind.mpr ?_
  rw [wp_read]
  split
  · refine wp_bind.mpr (pumpOn_takes (.inl ?_))
    exact List.mem_append_right _ (List.mem_singleton_self h)
  · rename_i hfull
    obtain ⟨hmax, hknown⟩ := hroom.resolve_left hfull
    refine wp_bind.mpr ?_
    rw [wp, create_exec hmax hknown]
    dsimp only
    refine wp_bind.mpr (wp_bind.mpr (pumpOn_takes (takes_of_holds t.nextSocketId
      ((has_iff _ _).mpr (List.mem_append_right _ (List.mem_singleton_self _))) (.inl ?_))))
    rw [wakeAccepter_field _ id t.nextSocketId (·.hostSocket) fun _ _ => rfl,
      modify_field _ id t.nextSocketId (·.hostSocket) rfl, modify_objs_self]

end SocketTable

/-! ### Runs -/

/-- A step hands out an object of the host. -/
def SocketAction.handsOut : SocketAction → List Nat
  | .resume _ (.host h _ _) => [h]
  | _ => []

/-- The table with its suspended calls, and all the objects the host has handed out. -/
structure HostSys where
  sys : SocketSys
  handed : List Nat

namespace HostSys

open SocketTable

def new (maxSockets : Nat) (vfs hostAdapter : Bool) : HostSys :=
  ⟨.new maxSockets vfs hostAdapter, []⟩

def step (w : HostSys) (act : SocketAction) : Option HostSys :=
  (w.sys.step act).map fun s => ⟨s, w.handed ++ act.handsOut⟩

/-- The calls that go on with the host's objects are checked, and sockets are made for processes
of `makes`. -/
def hostsAsked (makes : Nat → Prop) : Asked := ⟨False, False, False, True, False, makes⟩

variable {w w' : HostSys}

variable {act : SocketAction}

theorem meets_hosts {s : SocketSys} {makes : Nat → Prop}
    (h : s.hostsAllowed act = true)
    (hm : ∀ pid, makesFor act = some pid → makes pid) :
    Meets (hostsAsked makes) s act :=
  ⟨False.elim, False.elim, False.elim, fun _ => h, False.elim, hm⟩

/-- What a run keeps. -/
structure Kept (w : HostSys) : Prop where
  ok : w.sys.Ok
  resting : Resting w.sys.table
  handed : ∀ h ∈ w.handed, Takes w.sys.table h

theorem Kept.new (maxSockets : Nat) (vfs hostAdapter : Bool) :
    Kept (HostSys.new maxSockets vfs hostAdapter) where
  ok := .new maxSockets vfs hostAdapter
  resting := fun _ hpos hd => absurd hd.1 (Nat.not_lt.mpr hpos)
  handed := fun _ hh => (List.not_mem_nil hh).elim

/-- A call that goes on with an object of the host takes it. -/
theorem resumed_takes {t : SocketTable} {c : Awaiting} {h port : Nat} {known : Bool}
    {p : Sock (List Awaiting)} (hp : c.resumed (.host h port known) = some p)
    (hc : c.hostAllowed t (.host h port known) = true) : TurnTakes t h p := by
  have hmap : ∀ {α : Type} {q : Sock α} {f : α → List Awaiting}, TurnTakes t h q →
      TurnTakes t h (f <$> q) := fun hq => wp_map.mpr hq
  cases c with
  | tcpListen id =>
      cases hp
      exact hmap (tcpListening_takes (Bool.and_eq_true_iff.mp hc).1 port)
  | tcpConnect id addr =>
      cases hp
      exact hmap (attachHost_takes (Bool.and_eq_true_iff.mp hc).1 addr)
  | backgroundConnect id addr =>
      cases hp
      exact hmap (backgroundConnected_takes addr)
  | acceptPump id host =>
      cases hp
      refine hmap (acceptPumped_takes host ?_)
      simpa [Awaiting.hostAllowed] using (Bool.and_eq_true_iff.mp hc).2
  | udpBind id =>
      cases hp
      exact hmap (udpBound_takes (Bool.and_eq_true_iff.mp hc).1)
  | _ => cases hp

/-- What is handed out at a step is held or closed behind it. -/
theorem step_takes {s s' : SocketSys} (hc : s.hostsAllowed act = true)
    (hs : s.step act = some s') : ∀ h ∈ act.handsOut, Takes s'.table h := by
  cases act with
  | call c => exact fun _ hh => (List.not_mem_nil hh).elim
  | resume i ans =>
      cases ans with
      | host h port known =>
          intro x hx
          cases List.mem_singleton.mp hx
          simp only [SocketSys.step] at hs
          split at hs
          · cases hs
          · rename_i c hget
            split at hs
            · obtain ⟨p, hp, rfl⟩ := Option.map_eq_some_iff.mp hs
              have hall : c.hostAllowed s.table (.host h port known) = true := by
                simpa [SocketSys.hostsAllowed, hget] using hc
              exact state_of_wp (I := fun t => Takes t h) (resumed_takes hp hall)
            · cases hs
      | _ => exact fun _ hh => (List.not_mem_nil hh).elim

/-- A step, with the processes it makes sockets for. -/
theorem Kept.step_keeps (h : Kept w) (makes : Nat → Prop)
    (hc : w.sys.hostsAllowed act = true)
    (hm : ∀ pid, makesFor act = some pid → makes pid) (hs : w.step act = some w') :
    Kept w' ∧ KeepsHosts (hostsAsked makes) w.sys.table w'.sys.table := by
  obtain ⟨s', hs', rfl⟩ := Option.map_eq_some_iff.mp hs
  obtain ⟨heff, hok⟩ := step_effects h.ok (meets_hosts hc hm) hs'
  have hkeeps := KeepsHosts.effects trivial h.ok.sound heff
  refine ⟨⟨hok, hkeeps.resting h.resting, fun x hx => ?_⟩, hkeeps⟩
  rcases List.mem_append.mp hx with hx | hx
  · exact hkeeps.takes x (h.handed x hx)
  · exact step_takes hc hs' x hx

theorem Kept.step (h : Kept w) (hc : w.sys.hostsAllowed act = true)
    (hs : w.step act = some w') : Kept w' :=
  (h.step_keeps (fun _ => True) hc (fun _ _ => trivial) hs).1

/-- A run in which sockets are made for processes of `makes` only. -/
theorem Kept.run (h : Kept w) {C : HostSys → SocketAction → Prop} (makes : Nat → Prop)
    (hC : ∀ w act, C w act → w.sys.hostsAllowed act = true ∧
      ∀ pid, makesFor act = some pid → makes pid)
    (r : Lts.Reach HostSys.step C w w') :
    Kept w' ∧ KeepsHosts (hostsAsked makes) w.sys.table w'.sys.table := by
  induction r with
  | start => exact ⟨h, (HostLike.refl _).keeps⟩
  | next _ hc hs ih =>
      obtain ⟨hkept, hkeeps⟩ := ih
      obtain ⟨hallowed, hmakes⟩ := hC _ _ hc
      obtain ⟨hkept', hkeeps'⟩ := hkept.step_keeps makes hallowed hmakes hs
      exact ⟨hkept', fun h hh => hkeeps'.takes h (hkeeps.takes h hh),
        fun id hd => hkeeps'.gone id (hkeeps.gone id hd),
        fun hr => hkeeps'.resting (hkeeps.resting hr),
        fun pid hp hn => hkeeps'.noneOf pid hp (hkeeps.noneOf pid hp hn)⟩

/-- **The host's objects.**  In a run whose calls that go on are checked, every object the host has
handed out is held by a socket of the table or closed, a destroyed socket stays as it is, and
behind `closeAllForProcess` the process has no socket until one is made for it. -/
theorem host_objects_held {maxSockets : Nat} {vfs hostAdapter : Bool}
    (r : Lts.Reach step (fun w act => w.sys.hostsAllowed act = true)
      (new maxSockets vfs hostAdapter) w) :
    (∀ h ∈ w.handed, Takes w.sys.table h) ∧
    (∀ w', Lts.Reach step (fun w act => w.sys.hostsAllowed act = true) w w' →
      ∀ id, 0 < id → w.sys.table.Destroyed id → w'.sys.table.Destroyed id ∧
        (w'.sys.table.objs id).state = (w.sys.table.objs id).state) ∧
    ∀ pid w₁ w₂, w.step (.call (.closeAllForProcess pid)) = some w₁ →
      Lts.Reach step (fun w act => w.sys.hostsAllowed act = true ∧
        makesFor act ≠ some pid) w₁ w₂ →
      NoneOf w₂.sys.table pid := by
  have h : Kept w := Lts.Reach.invariant (I := Kept) (.new maxSockets vfs hostAdapter)
    (fun _ _ _ h hc hs => h.step hc hs) r
  refine ⟨h.handed, fun w' r' id hpos hd => ?_, fun pid w₁ w₂ hs r₂ => ?_⟩
  · obtain ⟨h', hkeeps⟩ :=
      h.run (fun _ => True) (fun _ _ hc => ⟨hc, fun _ _ => trivial⟩) r'
    have hd' := hkeeps.gone id hd
    exact ⟨hd', (h'.resting id hpos hd').trans (h.resting id hpos hd).symm⟩
  · have h₁ : Kept w₁ := h.step rfl hs
    have hnone : NoneOf w₁.sys.table pid := by
      cases hs
      exact closeAllForProcess_noneOf h.ok.sound pid
    have hrun := h₁.run (fun p => p ≠ pid)
      (fun _ _ hc => ⟨hc.1, fun p hp hpid => hc.2 (hpid ▸ hp)⟩) r₂
    exact hrun.2.noneOf pid (fun hne => hne rfl) hnone

/-- Socket 1 connects to the outside, and the host's socket 5 comes; when it is closed before
that, or not. -/
def connectOut (closed : Bool) : List SocketAction :=
  [.call (.create 2 SOCK_STREAM 0 7 true),
    .call (.connect 1 (.inet "10.0.0.1" 80) (some ⟨true, none⟩) true)] ++
  (if closed then [.call (.close 1 7)] else []) ++ [.resume 0 (.host 5 80 true)]

theorem host_objects_held_open : ∃ w : HostSys,
    Lts.Reach step (fun w act => w.sys.hostsAllowed act = true) (new 8 false true) w ∧
    5 ∈ w.handed ∧ Takes w.sys.table 5 := by
  obtain ⟨w, hr, hmem⟩ := Lts.Reach.exists_of_execIf step
    (fun w act => w.sys.hostsAllowed act = true) (new 8 false true) (connectOut false) (P := fun w => 5 ∈ w.handed) (by decide +kernel)
  exact ⟨w, hr, hmem, (host_objects_held hr).1 5 hmem⟩

/-- The host's socket that comes for a closed socket is neither held nor closed, and the closed
socket is connected again. -/
theorem host_objects_held_fails : ∃ w : HostSys,
    Lts.Reach step Lts.Any (new 8 false true) w ∧ 5 ∈ w.handed ∧ ¬ Takes w.sys.table 5 ∧
    w.sys.table.Destroyed 1 ∧ (w.sys.table.objs 1).state = .connected := by
  obtain ⟨w, hw, hhanded, hclosed, hsockets, hnext, hstate⟩ :=
    Lts.Reach.exists_of_exec step (new 8 false true) (connectOut true) (P := fun w =>
      5 ∈ w.handed ∧ w.sys.table.hostClosed = [] ∧ w.sys.table.sockets = [] ∧
      w.sys.table.nextSocketId = 2 ∧ (w.sys.table.objs 1).state = .connected) (by decide +kernel)
  have hnone : ∀ id, w.sys.table.has id = false := fun id => by simp [has, hsockets]
  refine ⟨w, hw, hhanded, ?_, ⟨?_, hnone 1⟩, hstate⟩
  · rintro (hc | ⟨id, hlive, -⟩)
    · rw [hclosed] at hc
      exact List.not_mem_nil hc
    · rw [hnone] at hlive
      cases hlive
  · rw [hnext]
    exact Nat.lt_succ_self 1

end HostSys

end SecureExec.Socket
