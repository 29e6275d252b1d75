import SecureExec.Socket.Ports

/-!
# Socket — Failures — what a rejected call leaves behind

`bind`, `listen` and `connect` from the call to its end, nothing else running between their turns.
What they wait for (the file system, the host adapter) answers or fails.

* `failed_calls_keep_iff`: a call that rejects leaves the socket's state, addresses and backlog limit
  and the registries as they were, but for three of its failures: `bind` registers before it writes
  the socket file, `listen` sets the backlog limit before it asks the policy, and `connect` binds the
  socket to a port before it looks for room at the other end.
-/

namespace SecureExec.Socket
open SecureExec Kernel Prog

/-- A call, with what it is answered. -/
inductive FallibleCall where
  /-- `file` is how `createSocketFile` ends. -/
  | bind (socketId : Nat) (addr : SockAddr) (pathExists : Except Failure Bool)
    (file : Except Failure Unit)
  /-- `host` is the host's listener with its port. -/
  | listen (socketId : Nat) (backlogSize : Int) (external : Bool) (check : Option NetworkDecision)
    (host : Except Failure (Nat × Nat))
  | connect (socketId : Nat) (addr : SockAddr) (check : Option NetworkDecision) (known : Bool)
    (pathExists : Except Failure Bool) (host : Except Failure Nat)

def FallibleCall.socketId : FallibleCall → Nat
  | .bind id _ _ _ | .listen id _ _ _ _ | .connect id _ _ _ _ _ => id

namespace SocketTable

/-- The whole of a call. -/
def perform : FallibleCall → Sock Unit
  | .bind id addr pathExists file => do
    match ← bind id addr with
    | .waits (.bindExists _ boundAddr) =>
      let found ← lift pathExists
      bindChecked id boundAddr found
      lift file
    | _ => pure ()
  | .listen id backlogSize external check host => do
    match ← listen id backlogSize external check with
    | .waits _ =>
      let h ← lift host
      let _ ← tcpListening id h.1 h.2
      pure ()
    | _ => pure ()
  | .connect id addr check known pathExists host => do
    match ← connect id addr check known with
    | .waits (.connectExists _ _) =>
      let found ← lift pathExists
      let _ ← connectChecked id addr found known
      pure ()
    | .waits _ =>
      let h ← lift host
      let _ ← attachHost id h addr
      pure ()
    | _ => pure ()

/-- The socket's state, addresses and backlog limit and the registries are the same. -/
structure SameSocket (t t' : SocketTable) (id : Nat) : Prop where
  state : (t'.objs id).state = (t.objs id).state
  localAddr : (t'.objs id).localAddr = (t.objs id).localAddr
  remoteAddr : (t'.objs id).remoteAddr = (t.objs id).remoteAddr
  backlogLimit : (t'.objs id).backlogLimit = (t.objs id).backlogLimit
  listeners : t'.listeners = t.listeners
  udpBindings : t'.udpBindings = t.udpBindings

/-- A call that rejects changes none of these. -/
def FailureKeeps (t : SocketTable) (c : FallibleCall) : Prop :=
  ∀ e t', (perform c).exec t = (.error e, t') → t.SameSocket t' c.socketId

/-- The connection to the address is not made. -/
def Unmade (t : SocketTable) (id : Nat) (addr : SockAddr) (check : Option NetworkDecision)
    (known : Bool) (host : Except Failure Nat) : Prop :=
  match t.findListener addr with
  | some l => (t.objs l).backlogLimit ≤ (t.objs l).backlog.length ∨
      t.maxSockets ≤ t.sockets.length ∨ known = false
  | none => (∃ path, addr = .unix path) ∨ (∃ e, checkNetworkPermission "connect" check = .error e) ∨
      t.hostAdapter = false ∨ (t.objs id).nonBlocking = false ∧ ∃ e, host = .error e

/-- The call rejects after it has changed the socket. -/
def FailsLate (t : SocketTable) : FallibleCall → Prop
  | .bind id addr pathExists file =>
    -- the address is free, and the socket file cannot be made
    t.has id = true ∧ (t.objs id).state = .created ∧ t.vfs = true ∧ (∃ path, addr = .unix path) ∧
      pathExists = .ok false ∧ t.addrTaken addr (t.objs id) = false ∧ ∃ e, file = .error e
  | .listen id backlogSize external check host =>
    -- another limit is asked for, and the policy or the host says no
    t.has id = true ∧ (t.objs id).state = .bound ∧
      (∃ host port, (t.objs id).localAddr = some (.inet host port)) ∧
      (t.objs id).backlogLimit ≠ backlogSize.toNat ∧
      ((∃ e, checkNetworkPermission "listen" check = .error e) ∨
        external = true ∧ t.hostAdapter = true ∧ ∃ e, host = .error e)
  | .connect id addr check known _ host =>
    -- the socket has no address yet, a port is free for it, and the connection is not made
    t.has id = true ∧ ((t.objs id).state = .created ∨ (t.objs id).state = .bound) ∧
      (t.objs id).localAddr = none ∧ (∃ h port, addr = .inet h port ∧
        ∃ free, EPHEMERAL_PORT_MIN ≤ free ∧ free ≤ EPHEMERAL_PORT_MAX ∧
          t.addrTaken (.inet (loopbackFor h) free) (t.objs id) = false) ∧
      t.Unmade id addr check known host

variable {t t' : SocketTable} {id : Nat} {addr : SockAddr}

theorem SameSocket.refl (t : SocketTable) (id : Nat) : t.SameSocket t id :=
  ⟨rfl, rfl, rfl, rfl, rfl, rfl⟩

/-- Whether a port was asked for is none of these. -/
theorem sameSocket_requested (t : SocketTable) (id : Nat) (v : Bool) :
    t.SameSocket (t.modify id ({ · with requestedEphemeralPort := v })) id := by
  constructor <;> simp

/-- What a call is shown to do: it returns and does not fail late, or rejects, having changed the
socket exactly when it fails late. -/
def Judged (t : SocketTable) (c : FallibleCall) (p : Sock Unit) (s : SocketTable) : Prop :=
  p.wp s (fun _ _ => ¬ t.FailsLate c) fun _ t' => t.FailsLate c ↔ ¬ t.SameSocket t' c.socketId

theorem Judged.keeps_iff {c : FallibleCall} (h : t.Judged c (perform c) t) :
    t.FailureKeeps c ↔ ¬ t.FailsLate c := by
  unfold Judged wp at h
  rcases hp : (perform c).exec t with ⟨e | a, t'⟩ <;> rw [hp] at h
  · constructor
    · exact fun hk hf => h.mp hf (hk e t' hp)
    · intro hn e' t'' he
      cases hp.symm.trans he
      exact by_contra fun hs => hn (h.mpr hs)
  · refine ⟨fun _ => h, fun _ e t'' he => ?_⟩
    cases hp.symm.trans he

/-- Nothing is changed, and the call does not fail late. -/
theorem spared {c : FallibleCall} (hf : ¬ t.FailsLate c) (hs : t.SameSocket t' c.socketId) :
    t.FailsLate c ↔ ¬ t.SameSocket t' c.socketId := iff_of_false hf (not_not_intro hs)

/-! ### Bind -/

variable {E : Failure → SocketTable → Prop}

/-- A call to an inet address stays one. -/
theorem wp_assign_inet (t : SocketTable) (id : Nat) (h : String) (port : Nat)
    {Q : SockAddr → SocketTable → Prop}
    (hQ : ∀ q v, Q (.inet h q) (t.modify id ({ · with requestedEphemeralPort := v })))
    (hE : ∀ e v, E e (t.modify id ({ · with requestedEphemeralPort := v }))) :
    (assignEphemeralPort (.inet h port) id).wp t Q E := by
  cases port with
  | zero =>
      rw [wp, assign_exec]
      cases List.find? _ _ with
      | some q => exact hQ q true
      | none => exact hE _ true
  | succ n => exact hQ (n + 1) false

theorem wp_registerAddr (id : Nat) (addr : SockAddr) {Q : Unit → SocketTable → Prop}
    (hQ : t.addrTaken addr (t.objs id) = false → Q () (t.setAddr id addr))
    (hE : t.addrTaken addr (t.objs id) = true → E (addrInUse addr) t) :
    (registerAddr id addr).wp t Q E := by
  rw [registerAddr, wp_bind, wp_read]
  split
  · exact hE (by assumption)
  · exact hQ (Bool.eq_false_of_not_eq_true (by assumption))

theorem setAddr_bound (t : SocketTable) (id : Nat) (addr : SockAddr) :
    ((t.setAddr id addr).objs id).state = .bound := by
  rw [setAddr]
  split <;> simp

theorem bind_judged (id : Nat) (addr : SockAddr) (pathExists : Except Failure Bool)
    (file : Except Failure Unit) :
    t.Judged (.bind id addr pathExists file) (perform (.bind id addr pathExists file)) t := by
  rw [Judged, perform, wp_bind, SocketTable.bind, wp_bind, wp, requireSocket_exec]
  cases hlive : t.has id with
  | false => exact spared (fun hf => Bool.noConfusion (hlive.symm.trans hf.1)) (.refl t id)
  | true =>
    by_cases hs : (t.objs id).state = .created
    case neg =>
      change wp (if _ then _ else _) _ _ _
      rw [if_pos hs]
      exact spared (fun hf => hs hf.2.1) (.refl t id)
    change wp (if _ then _ else _) _ _ _
    rw [if_neg (not_not_intro hs), wp_bind]
    cases addr with
    | inet h port =>
        have hnot : ¬ t.FailsLate (.bind id (.inet h port) pathExists file) :=
          fun hf => SockAddr.noConfusion hf.2.2.2.1.choose_spec
        refine wp_assign_inet t id h port (fun q v => ?_) fun _ v =>
          spared hnot (sameSocket_requested t id v)
        rw [wp_bind, wp_read, wp_bind]
        exact wp_registerAddr id _ (fun _ => hnot) fun _ => spared hnot (sameSocket_requested t id v)
    | unix path =>
        have hsame := sameSocket_requested t id false
        have htaken := addrTaken_requested t id false (.unix path)
        change wp _ (t.modify id ({ · with requestedEphemeralPort := false })) _ _
        rw [wp_bind, wp_read, show (t.modify id _).vfs = t.vfs from rfl]
        cases hvfs : t.vfs with
        | false =>
            have hnot : ¬ t.FailsLate (.bind id (.unix path) pathExists file) :=
              fun hf => Bool.noConfusion (hvfs.symm.trans hf.2.2.1)
            rw [wp_bind]
            exact wp_registerAddr id _ (fun _ => hnot) fun _ => spared hnot hsame
        | true =>
            change (lift pathExists >>= _).wp _ _ _
            rw [wp_bind]
            refine wp_lift_of (fun found hfound => ?_) fun e he =>
              spared (fun hf => by cases he.symm.trans hf.2.2.2.2.1) hsame
            rw [wp_bind, bindChecked]
            cases found with
            | true => exact spared (fun hf => by cases hfound.symm.trans hf.2.2.2.2.1) hsame
            | false =>
                refine wp_registerAddr id _ (fun hfree => ?_) fun hused =>
                  spared (fun hf => Bool.noConfusion (htaken.symm.trans hused ▸ hf.2.2.2.2.2.1)) hsame
                refine wp_lift_of (fun _ hfile hf => ?_) fun e he => iff_of_true ?_ fun hkept => ?_
                · obtain ⟨_, _, _, _, _, _, e, he⟩ := hf
                  cases hfile.symm.trans he
                · exact ⟨hlive, hs, hvfs, ⟨path, rfl⟩, hfound, htaken ▸ hfree, e, he⟩
                · have hstate := hkept.state
                  rw [FallibleCall.socketId, setAddr_bound, hs] at hstate
                  cases hstate

/-! ### Listen -/

theorem sameSocket_limit (t : SocketTable) (id limit : Nat) :
    t.SameSocket (t.modify id ({ · with backlogLimit := limit })) id ↔
      (t.objs id).backlogLimit = limit := by
  constructor
  · intro h
    have hlimit := h.backlogLimit
    rw [modify_objs_self] at hlimit
    exact hlimit.symm
  · intro h
    constructor <;> simp [h]

theorem listen_judged (id : Nat) (backlogSize : Int) (external : Bool)
    (check : Option NetworkDecision) (host : Except Failure (Nat × Nat)) :
    t.Judged (.listen id backlogSize external check host)
      (perform (.listen id backlogSize external check host)) t := by
  rw [Judged, perform, wp_bind, listen, wp_bind, wp, requireSocket_exec]
  cases hlive : t.has id with
  | false => exact spared (fun hf => Bool.noConfusion (hlive.symm.trans hf.1)) (.refl t id)
  | true =>
    by_cases hs : (t.objs id).state = .bound
    case neg =>
      change wp (if _ then _ else _) _ _ _
      rw [if_pos hs]
      exact spared (fun hf => hs hf.2.1) (.refl t id)
    change wp (if _ then _ else _) _ _ _
    rw [if_neg (not_not_intro hs), wp_bind, wp_update]
    -- the limit is set, and what comes after only decides whether the call rejects
    have hrejects : ∀ hinet : ∃ h p, (t.objs id).localAddr = some (.inet h p),
        ((∃ e, checkNetworkPermission "listen" check = .error e) ∨
          external = true ∧ t.hostAdapter = true ∧ ∃ e, host = .error e) →
        (t.FailsLate (.listen id backlogSize external check host) ↔
          ¬ t.SameSocket (t.modify id ({ · with backlogLimit := backlogSize.toNat })) id) := by
      intro hinet hno
      rw [sameSocket_limit]
      exact ⟨fun hf => hf.2.2.2.1, fun hl => ⟨hlive, hs, hinet, hl, hno⟩⟩
    have hinet : t.FailsLate (.listen id backlogSize external check host) →
        ∃ h p, (t.objs id).localAddr = some (.inet h p) := fun hf => hf.2.2.1
    cases haddr : (t.objs id).localAddr with
    | none =>
      rw [haddr] at hinet
      exact fun hf => by simpa using hinet hf
    | some addr =>
      rw [haddr] at hinet
      cases addr with
      | unix path => exact fun hf => by simpa using hinet hf
      | inet h p =>
          change (lift _ >>= _).wp _ _ _
          rw [wp_bind]
          refine wp_lift_of (fun _ hok => ?_) fun e he => hrejects ⟨h, p, haddr⟩ (.inl ⟨e, he⟩)
          have hnot : ¬ (external = true ∧ t.hostAdapter = true ∧ ∃ e, host = .error e) →
              ¬ t.FailsLate (.listen id backlogSize external check host) := by
            rintro hn ⟨_, _, _, _, ⟨e, he⟩ | hh⟩
            · cases hok.symm.trans he
            · exact hn hh
          rw [wp_bind, wp_read]
          split
          · rename_i hboth
            obtain ⟨hext, hadapter⟩ := Bool.and_eq_true_iff.mp hboth
            change (lift host >>= _).wp _ _ _
            rw [wp_bind]
            refine wp_lift_of (fun r hr => ?_) fun e he =>
              hrejects ⟨h, p, haddr⟩ (.inr ⟨hext, hadapter, e, he⟩)
            have hlate := hnot fun hn => by cases hr.symm.trans hn.2.2.choose_spec
            rw [wp_bind, tcpListening, wp_bind, wp_update, wp_bind, wp_read]
            split <;> exact hlate
          · rename_i hboth
            exact hnot fun hn => hboth (Bool.and_eq_true_iff.mpr ⟨hn.1, hn.2.1⟩)

/-! ### Connect -/

section
variable {check : Option NetworkDecision} {known : Bool} {host : Except Failure Nat}

/-- `route` rejects only without having changed anything, and the connection is not made then. -/
theorem wp_route (check : Option NetworkDecision) (host : Except Failure Nat)
    {Q : Turn Unit → SocketTable → Prop}
    (hmade : ∀ r s', (∀ c, r ≠ .waits c) → ¬ t.Unmade id addr check known host → Q r s')
    (hwaits : (t.Unmade id addr check known host ↔ ∃ e, host = .error e) →
      Q (.waits (.tcpConnect id addr)) t)
    (hE : ∀ e, t.Unmade id addr check known host → E e t) :
    (route id addr check known).wp t Q E := by
  unfold route
  rw [wp_bind, wp_read]
  unfold Unmade at hmade hwaits hE
  cases hl : t.findListener addr with
  | some l =>
      rw [hl] at hmade hE
      rw [wp_bind, connectTo, wp_bind, wp_read]
      split
      · exact hE _ (.inl (by assumption))
      rename_i hfull
      rw [wp_bind, create, wp_bind, wp_read]
      split
      · exact hE _ (.inr (.inl (by assumption)))
      rename_i hroom
      cases hk : known with
      | false => exact hE _ (.inr (.inr hk))
      | true =>
          refine hmade _ _ (fun c hc => by cases hc) ?_
          rintro (h | h | h)
          · exact hfull h
          · exact hroom h
          · cases hk.symm.trans h
  | none =>
      rw [hl] at hmade hwaits hE
      cases addr with
      | unix path => exact hE _ (.inl ⟨path, rfl⟩)
      | inet h p =>
          change (connectExternal id (.inet h p) check).wp _ _ _
          rw [connectExternal, wp_bind]
          refine wp_lift_of (fun _ hok => ?_) fun e he => hE e (.inr (.inl ⟨e, he⟩))
          have hchecked : ¬ ∃ e, checkNetworkPermission "connect" check = .error e :=
            fun hf => by cases hok.symm.trans hf.choose_spec
          rw [wp_bind, wp_read]
          split
          case isFalse hn => exact hE _ (.inr (.inr (.inl (Bool.eq_false_of_not_eq_true hn))))
          rename_i hadapter
          split
          · rename_i hnb
            refine hmade _ _ (fun c hc => by cases hc) ?_
            rintro (⟨_, h⟩ | h | h | ⟨h, -⟩)
            · cases h
            · exact hchecked h
            · cases h.symm.trans hadapter
            · cases h.symm.trans hnb
          · rename_i hnb
            refine hwaits ⟨?_, fun h => .inr (.inr (.inr ⟨Bool.eq_false_of_not_eq_true hnb, h⟩))⟩
            rintro (⟨_, h⟩ | h | h | ⟨-, h⟩)
            · cases h
            · exact absurd h hchecked
            · cases h.symm.trans hadapter
            · exact h

/-- What decides is not changed when the socket gets an address. -/
theorem unmade_modify {f : KernelSocket → KernelSocket}
    (hf : ∀ s, (f s).state = s.state ∧ (f s).backlog = s.backlog ∧
      (f s).backlogLimit = s.backlogLimit ∧ (f s).nonBlocking = s.nonBlocking) :
    (t.modify id f).Unmade id addr check known host ↔ t.Unmade id addr check known host := by
  have hstate := fun i => modify_field t id i (·.state) (hf (t.objs id)).1
  have hlistening : ∀ key, (t.modify id f).getListeningSocket key = t.getListeningSocket key := by
    intro key
    rw [getListeningSocket, modify_listeners, getListeningSocket]
    cases t.listeners.get key with
    | none => rfl
    | some l =>
        show (if t.has l && _ then _ else _) = _
        rw [hstate l]
  have hlistener : (t.modify id f).findListener addr = t.findListener addr := by
    cases addr <;> simp only [findListener, hlistening]
  rw [Unmade, Unmade, hlistener]
  cases t.findListener addr with
  | some l =>
      show (_ ≤ List.length _ ∨ _) ↔ _
      rw [modify_field t id l (·.backlog) (hf (t.objs id)).2.1,
        modify_field t id l (·.backlogLimit) (hf (t.objs id)).2.2.1]
      rfl
  | none =>
      show (_ ∨ _ ∨ _ ∨ _ = false ∧ _) ↔ _
      rw [modify_field t id id (·.nonBlocking) (hf (t.objs id)).2.2.2]
      rfl

/-- The turns of `connect` behind the auto-bind, from the table `s` that it leaves. -/
theorem wp_connectBound {pathExists : Except Failure Bool} {s : SocketTable}
    (hlate : t.FailsLate (.connect id addr check known pathExists host) ↔
      ¬ t.SameSocket s id ∧ s.Unmade id addr check known host)
    (hunix : (∃ path, addr = .unix path) → t.SameSocket s id) :
    t.Judged (.connect id addr check known pathExists host) (do
      match ← connectBound id addr check known with
      | .waits (.connectExists _ _) =>
        let found ← lift pathExists
        let _ ← connectChecked id addr found known
        pure ()
      | .waits _ =>
        let h ← lift host
        let _ ← attachHost id h addr
        pure ()
      | _ => pure ()) s := by
  have hmade : ¬ s.Unmade id addr check known host →
      ¬ t.FailsLate (.connect id addr check known pathExists host) :=
    fun hn hf => hn (hlate.mp hf).2
  have hfailed : s.Unmade id addr check known host →
      (t.FailsLate (.connect id addr check known pathExists host) ↔ ¬ t.SameSocket s id) :=
    fun hu => hlate.trans (and_iff_left hu)
  rw [Judged, wp_bind]
  cases addr with
  | inet h p =>
      refine wp_route check host (fun r s' hr hn => ?_) (fun hh => ?_) fun e => hfailed
      · cases r with
        | waits c => exact absurd rfl (hr c)
        | done | rejected | spawns => exact hmade hn
      · rw [wp_bind]
        refine wp_lift_of (fun _ hok => ?_) fun e he => hfailed (hh.mpr ⟨e, he⟩)
        exact hmade fun hu => by cases hok.symm.trans (hh.mp hu).choose_spec
  | unix path =>
      have hsame := hunix ⟨path, rfl⟩
      have hnot : ¬ t.FailsLate (.connect id (.unix path) check known pathExists host) :=
        fun hf => (hlate.mp hf).1 hsame
      have hspared := spared hnot hsame
      unfold connectBound
      rw [wp_bind, wp_read]
      cases s.vfs with
      | false =>
          refine wp_route check host (fun r s' hr _ => ?_) (fun _ => ?_) fun _ _ => hspared
          · cases r with
            | waits c => exact absurd rfl (hr c)
            | done | rejected | spawns => exact hnot
          · rw [wp_bind]
            exact wp_lift_of (fun _ _ => hnot) fun _ _ => hspared
      | true =>
          change (lift pathExists >>= _).wp _ _ _
          rw [wp_bind]
          refine wp_lift_of (fun found _ => ?_) fun _ _ => hspared
          rw [wp_bind, connectChecked]
          cases found with
          | false => exact hspared
          | true =>
              refine wp_mono (Q := fun _ _ => True) (E := fun _ s' => s' = s) ?_
                (fun _ _ _ => hnot) fun _ _ he => he ▸ hspared
              exact wp_route none host (fun _ _ _ _ => trivial) (fun _ => trivial)
                fun _ _ => rfl

theorem connect_judged (pathExists : Except Failure Bool) :
    t.Judged (.connect id addr check known pathExists host)
      (perform (.connect id addr check known pathExists host)) t := by
  rw [Judged, perform, wp_bind, connect, wp_bind, wp, requireSocket_exec]
  cases hlive : t.has id with
  | false => exact spared (fun hf => Bool.noConfusion (hlive.symm.trans hf.1)) (.refl t id)
  | true =>
    by_cases hs : (t.objs id).state = .created ∨ (t.objs id).state = .bound
    case neg =>
      change wp (if _ then _ else _) _ _ _
      rw [if_pos (not_or.mp hs)]
      exact spared (fun hf => hs hf.2.1) (.refl t id)
    change wp (if _ then _ else _) _ _ _
    rw [if_neg fun h => hs.elim h.1 h.2, wp_bind]
    have hgo : ∀ s, (t.FailsLate (.connect id addr check known pathExists host) ↔
          ¬ t.SameSocket s id ∧ s.Unmade id addr check known host) →
        ((∃ path, addr = .unix path) → t.SameSocket s id) → (connectBound id addr check known).wp s _ _ :=
      fun s hlate hunix => wp_bind.mp (wp_connectBound hlate hunix)
    unfold autoBind
    rw [wp_bind, wp_read]
    cases addr with
    | unix path =>
        refine hgo t ⟨fun hf => (by simpa using hf.2.2.2.1), fun hn => ?_⟩ fun _ => .refl t id
        exact absurd (.refl t id) hn.1
    | inet h p =>
        cases haddr : (t.objs id).localAddr with
        | some a =>
            refine hgo t ⟨fun hf => (by cases haddr.symm.trans hf.2.2.1), fun hn => ?_⟩ fun _ => .refl t id
            exact absurd (.refl t id) hn.1
        | none =>
            change (assignEphemeralPort (.inet (loopbackFor h) 0) id >>= _).wp _ _ _
            rw [wp_bind, wp, assign_exec]
            cases hfind : List.find? _ _ with
            | none =>
                refine spared (fun hf => ?_) (sameSocket_requested t id true)
                obtain ⟨_, _, _, ⟨_, _, hp, free, hmin, hmax, hfree⟩, _⟩ := hf
                cases hp
                exact List.find?_eq_none.mp hfind free (mem_ports.mpr ⟨hmin, hmax⟩)
                  (by rw [hfree]; rfl)
            | some port =>
                obtain ⟨hfree, hmem, -⟩ := List.find?_range'_eq_some.mp hfind
                obtain ⟨hmin, hmax⟩ := mem_ports.mp hmem
                have hmodify := modify_modify t id ({ · with requestedEphemeralPort := true })
                  ({ · with localAddr := some (.inet (loopbackFor h) port) })
                change wp _ ((t.modify id _).modify id _) _ _
                rw [hmodify]
                refine hgo _ ⟨fun hf => ⟨fun hsame => ?_, ?_⟩, fun hu => ?_⟩ fun hp => by cases hp.choose_spec
                · have hlocal := hsame.localAddr
                  rw [modify_objs_self, haddr] at hlocal
                  cases hlocal
                · exact (unmade_modify (by exact fun s => ⟨rfl, rfl, rfl, rfl⟩)).mpr hf.2.2.2.2
                · refine ⟨hlive, hs, haddr, ⟨h, p, rfl, port, hmin, hmax, by simpa using hfree⟩, ?_⟩
                  exact (unmade_modify (by exact fun s => ⟨rfl, rfl, rfl, rfl⟩)).mp hu.2

end

/-- **When a rejected call leaves everything as it was**: for every table, socket and answers. -/
theorem failed_calls_keep_iff (t : SocketTable) (c : FallibleCall) :
    t.FailureKeeps c ↔ ¬ t.FailsLate c := by
  apply Judged.keeps_iff
  cases c with
  | bind id addr pathExists file => exact bind_judged id addr pathExists file
  | listen id backlogSize external check host => exact listen_judged id backlogSize external check host
  | connect id addr check known pathExists host => exact connect_judged pathExists

/-- A refused `listen` changes the backlog limit, of a socket that a run has bound. -/
theorem failed_calls_keep_fails :
    ¬ ∀ (maxSockets : Nat) (vfs hostAdapter : Bool) (s : SocketSys) (c : FallibleCall),
      Lts.Reach SocketSys.step Lts.Any (.new maxSockets vfs hostAdapter) s → s.table.FailureKeeps c := by
  intro hall
  obtain ⟨s, hs, hnone, hbefore, hafter⟩ :=
    Lts.Reach.exists_of_exec SocketSys.step (.new 8 false false)
      [.call (.create 2 SOCK_STREAM 0 7 true), .call (.bind 1 (.inet "127.0.0.1" 80))] (P := fun s =>
        let r := (perform (.listen 1 5 false none (.ok (0, 0)))).exec s.table
        r.1.toOption = none ∧ (s.table.objs 1).backlogLimit = 0 ∧ (r.2.objs 1).backlogLimit = 5)
      (by decide +kernel)
  have hkeeps := hall 8 false false s (.listen 1 5 false none (.ok (0, 0))) hs
  rcases hr : (perform (.listen 1 5 false none (.ok (0, 0)))).exec s.table with ⟨e | a, t'⟩
  · have hlimit := (hkeeps e t' hr).backlogLimit
    rw [hr] at hafter
    cases hafter.symm.trans (hlimit.trans hbefore)
  · rw [hr] at hnone
    cases hnone

end SocketTable

end SecureExec.Socket
