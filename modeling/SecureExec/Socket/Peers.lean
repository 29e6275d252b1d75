import SecureExec.Socket.Turns

/-!
# Socket — Peers — who is linked to whom

Peers name each other (`Mutual`), and a socket that was destroyed is neither linked nor queued
again (`Buried`).  Both are kept by every effect, provided a link is made only between sockets
that are there and have no peer.  `connect` makes it behind a look-up of the path, and the check
it made before may be out of date by then: the socket may have been closed, or linked by another
`connect`.
-/

namespace SecureExec.Socket
open SecureExec Kernel

namespace SocketTable

variable {A : Asked} {s : KernelSocket} {t t' t'' : SocketTable}

/-- The peer of a socket of the table is in the table, and the socket is its peer. -/
def Mutual (t : SocketTable) : Prop :=
  ∀ a b, t.has a = true → (t.objs a).peerId = some b →
    t.has b = true ∧ (t.objs b).peerId = some a

namespace Mutual

theorem new (maxSockets : Nat) (vfs hostAdapter : Bool) :
    Mutual (.new maxSockets vfs hostAdapter) := by
  intro a b ha _
  simp [has, SocketTable.new] at ha

section

variable (h : Mutual t)
include h

/-- No socket is the peer of two. -/
theorem unique {a a' b : Nat} (ha : t.has a = true) (ha' : t.has a' = true)
    (hb : (t.objs a).peerId = some b) (hb' : (t.objs a').peerId = some b) : a = a' := by
  have h₁ := (h a b ha hb).2
  have h₂ := (h a' b ha' hb').2
  exact Option.some.inj (h₁.symm.trans h₂)

theorem of_peers (hs : t'.sockets = t.sockets)
    (hp : ∀ i, (t'.objs i).peerId = (t.objs i).peerId) : Mutual t' := by
  intro a b ha hb
  rw [has, hs] at ha
  rw [hp] at hb ⊢
  rw [has, hs]
  exact h a b ha hb

theorem add (ht : Sound t) (hs : s.peerId = none) : Mutual (t.add s) := by
  intro a b ha hb
  by_cases hn : a = t.nextSocketId
  · subst hn
    rw [add_objs_self, hs] at hb
    cases hb
  · rw [add_objs_of_ne t hn] at hb
    rw [has_iff, SocketTable.add, List.mem_append, List.mem_singleton] at ha
    obtain ⟨hlive, hpeer⟩ := h a b ((has_iff t a).mpr (ha.resolve_right hn)) hb
    refine ⟨(has_iff _ b).mpr (List.mem_append_left _ ((has_iff t b).mp hlive)), ?_⟩
    rw [add_objs_of_ne t (Nat.ne_of_lt (ht.below b hlive))]
    exact hpeer

theorem link {a b : Nat} (hab : a ≠ b) (ha : t.freeToLink a = true)
    (hb : t.freeToLink b = true) : Mutual (t.linkPeers a b) := by
  obtain ⟨halive, hapeer⟩ := Bool.and_eq_true_iff.mp ha
  obtain ⟨hblive, hbpeer⟩ := Bool.and_eq_true_iff.mp hb
  rw [Option.isNone_iff_eq_none] at hapeer hbpeer
  have hself : ((t.linkPeers a b).objs a).peerId = some b := by
    rw [linkPeers, modify_objs_of_ne _ hab, modify_objs_self]
  have hself' : ((t.linkPeers a b).objs b).peerId = some a := by
    rw [linkPeers, modify_objs_self]
  have hother : ∀ i, i ≠ a → i ≠ b →
      ((t.linkPeers a b).objs i).peerId = (t.objs i).peerId := by
    intro i hia hib
    rw [linkPeers, modify_objs_of_ne _ hib, modify_objs_of_ne _ hia]
  intro x y hx hy
  by_cases hxa : x = a
  · subst hxa
    cases Option.some.inj (hself.symm.trans hy)
    exact ⟨hblive, hself'⟩
  · by_cases hxb : x = b
    · subst hxb
      cases Option.some.inj (hself'.symm.trans hy)
      exact ⟨halive, hself⟩
    · -- a peer of another socket was linked before
      rw [hother x hxa hxb] at hy
      obtain ⟨hylive, hypeer⟩ := h x y hx hy
      refine ⟨hylive, ?_⟩
      rw [hother y ?_ ?_]
      · exact hypeer
      · rintro rfl
        rw [hapeer] at hypeer
        cases hypeer
      · rintro rfl
        rw [hbpeer] at hypeer
        cases hypeer

theorem finish (ht : Sound t) {id : Nat} (hid : t.has id = true) :
    Mutual (t.finish id) := by
  intro a b ha hb
  rw [has_iff, finish_sockets, ht.nodup.mem_erase_iff] at ha
  obtain ⟨hne, ha⟩ := ha
  rw [← has_iff] at ha
  rw [finish_peerId] at hb
  split at hb
  · cases hb
  · rename_i hnot
    obtain ⟨hlive, hpeer⟩ := h a b ha hb
    -- the peer of `a` is not the socket that goes, whose peer has been cleared
    have hbid : b ≠ id := by
      rintro rfl
      exact hnot ⟨hpeer, ha⟩
    refine ⟨has_finish t hbid hlive, ?_⟩
    rw [finish_peerId, if_neg, hpeer]
    rintro ⟨hp, -⟩
    exact hne (h.unique ha hid hb hp)

end

/-- **Every effect whose links are checked.** -/
theorem effect (hA : A.links) (h : Mutual t) (ht : Sound t) (he : Effect A t t') : Mutual t' := by
  cases he with
  | change hc =>
      have hp := hc.calm.peers
      exact h.of_peers hp.sockets fun i => (hp.objs i).peer
  | add s hs _ => exact h.add ht hs.peer
  | queue listener c _ _ =>
      refine h.of_peers rfl fun i => ?_
      rw [wakeAccepter_field _ listener i (·.peerId) fun _ _ => rfl]
      exact modify_field t listener i (·.peerId) rfl
  | link a b hab hb _ ha _ _ => exact h.link (Nat.ne_of_lt hab) (ha hA) hb
  | unlink id p hlive hp hgone =>
      rw [(h id p hlive hp).1] at hgone
      cases hgone
  | register id addr _ _ _ _ _ =>
      have hp := PeerLike.setAddr t id addr
      exact h.of_peers hp.sockets fun i => (hp.objs i).peer
  | listen id _ _ =>
      have hp := PeerLike.setState t id .listening
      exact h.of_peers hp.sockets fun i => (hp.objs i).peer
  | rekey id port _ _ _ =>
      have hp := PeerLike.rekey t id port
      exact h.of_peers hp.sockets fun i => (hp.objs i).peer
  | finish id hlive => exact h.finish ht hlive

theorem effects (hA : A.links) (h : Mutual t) (ht : Sound t) (he : Effects A t t') :
    Mutual t' := by
  induction he with
  | refl => exact h
  | tail hr he ih => exact effect hA ih (ht.effects hr) he

end Mutual

/-! ### Destroyed sockets -/

/-- The socket has been made, and is no longer in the table. -/
def Destroyed (t : SocketTable) (id : Nat) : Prop := id < t.nextSocketId ∧ t.has id = false

/-- What is destroyed in `t` is so in `t'`, with the link it had, and is queued nowhere it was not
queued before. -/
structure Buried (t t' : SocketTable) : Prop where
  gone : ∀ id, t.Destroyed id → t'.Destroyed id
  peer : ∀ id, t.Destroyed id → (t'.objs id).peerId = (t.objs id).peerId
  queued : ∀ id l, t.Destroyed id → id ∈ (t'.objs l).backlog → id ∈ (t.objs l).backlog

namespace Buried

theorem refl (t : SocketTable) : Buried t t := ⟨fun _ h => h, fun _ _ => rfl, fun _ _ _ h => h⟩

theorem trans (h : Buried t t') (h' : Buried t' t'') : Buried t t'' where
  gone := fun id hd => h'.gone id (h.gone id hd)
  peer := fun id hd => (h'.peer id (h.gone id hd)).trans (h.peer id hd)
  queued := fun id l hd hq => h.queued id l hd (h'.queued id l (h.gone id hd) hq)

theorem of_sockets (hs : t'.sockets = t.sockets) (hn : t'.nextSocketId = t.nextSocketId)
    (hp : ∀ i, t.Destroyed i → (t'.objs i).peerId = (t.objs i).peerId)
    (hq : ∀ i l, t.Destroyed i → i ∈ (t'.objs l).backlog → i ∈ (t.objs l).backlog) :
    Buried t t' := by
  refine ⟨fun id hd => ?_, hp, hq⟩
  rw [Destroyed, has, hs, hn]
  exact hd

theorem of_peerLike (h : PeerLike t t') : Buried t t' :=
  of_sockets h.sockets h.next (fun i _ => (h.objs i).peer) fun i l _ => (h.objs l).backlog i

theorem add (t : SocketTable) (hs : s.backlog = []) : Buried t (t.add s) := by
  refine ⟨fun id hd => ⟨Nat.lt_succ_of_lt hd.1, ?_⟩, fun id hd => ?_, fun id l hd hq => ?_⟩
  · rw [Bool.eq_false_iff, Ne, has_iff, SocketTable.add, List.mem_append, List.mem_singleton]
    rintro (h | h)
    · exact Bool.eq_false_iff.mp hd.2 ((has_iff t id).mpr h)
    · exact Nat.ne_of_lt hd.1 h
  · rw [add_objs_of_ne t (Nat.ne_of_lt hd.1)]
  · by_cases hl : l = t.nextSocketId
    · subst hl
      rw [add_objs_self, hs] at hq
      exact (List.not_mem_nil hq).elim
    · rwa [add_objs_of_ne t hl] at hq

/-- A socket that is there is queued. -/
theorem queue {l c : Nat} (hc : t.has c = true) :
    Buried t (t.modify l fun s => { s with backlog := s.backlog ++ [c] }) := by
  refine of_sockets rfl rfl (fun i _ => modify_field t l i (·.peerId) rfl) fun i x hd hq => ?_
  by_cases hx : x = l
  · subst hx
    rw [modify_objs_self, List.mem_append, List.mem_singleton] at hq
    refine hq.resolve_right ?_
    rintro rfl
    rw [hd.2] at hc
    cases hc
  · rwa [modify_objs_of_ne t hx] at hq

/-- The links of sockets that are there change. -/
theorem of_live {id : Nat} (hid : t.has id = true) {g : KernelSocket → KernelSocket}
    (hg : (g (t.objs id)).backlog = (t.objs id).backlog) : Buried t (t.modify id g) := by
  refine of_sockets rfl rfl (fun i hd => ?_) fun i l _ hq => ?_
  · have hne : i ≠ id := by
      rintro rfl
      rw [hd.2] at hid
      cases hid
    rw [modify_objs_of_ne t hne]
  · rwa [modify_field t id l (·.backlog) hg] at hq

theorem link {a b : Nat} (ha : t.freeToLink a = true) (hb : t.freeToLink b = true) :
    Buried t (t.linkPeers a b) := by
  have hlive : ∀ i, t.freeToLink i = true → t.has i = true := fun i h =>
    (Bool.and_eq_true_iff.mp h).1
  exact (of_live (hlive a ha) rfl).trans (of_live (t := t.modify a _) (hlive b hb) rfl)

theorem finish (ht : Sound t) (id : Nat) : Buried t (t.finish id) := by
  refine ⟨fun i hd => ⟨?_, ?_⟩, fun i hd => ?_, fun i l _ hq => ?_⟩
  · rw [finish_nextSocketId]
    exact hd.1
  · rw [Bool.eq_false_iff, Ne, has_iff, finish_sockets, ht.nodup.mem_erase_iff]
    rintro ⟨-, h⟩
    exact Bool.eq_false_iff.mp hd.2 ((has_iff t i).mpr h)
  · rw [finish_peerId, if_neg]
    rintro ⟨-, h⟩
    rw [hd.2] at h
    cases h
  · rw [finish_backlog] at hq
    split at hq
    · exact (List.not_mem_nil hq).elim
    · exact hq

theorem effect (hA : A.links) (ht : Sound t) (he : Effect A t t') : Buried t t' := by
  cases he with
  | change hc => exact of_peerLike hc.calm.peers
  | add s hs _ => exact add t hs.backlog
  | queue listener c _ hc => exact (queue hc).trans (of_peerLike (Calm.wakeAccepter _ listener).peers)
  | link a b _ hb _ ha _ _ => exact link (ha hA) hb
  | unlink id p hlive _ _ => exact of_live hlive rfl
  | register id addr _ _ _ _ _ => exact of_peerLike (.setAddr t id addr)
  | listen id _ _ => exact of_peerLike (.setState t id .listening)
  | rekey id port _ _ _ => exact of_peerLike (.rekey t id port)
  | finish id _ => exact finish ht id

theorem effects (hA : A.links) (ht : Sound t) (he : Effects A t t') : Buried t t' := by
  induction he with
  | refl => exact .refl t
  | tail hr he ih => exact ih.trans (effect hA (ht.effects hr) he)

end Buried

end SocketTable

/-! ### Runs -/

namespace SocketSys

open SocketTable

/-- Links are checked. -/
def linksAsked : Asked := ⟨True, False, False, False, False, fun _ => True⟩

/-- What a run whose links are checked keeps. -/
structure Paired (s : SocketSys) : Prop where
  ok : s.Ok
  peers : s.table.Mutual

namespace Paired

variable {s s' : SocketSys}

theorem new (maxSockets : Nat) (vfs hostAdapter : Bool) :
    Paired (SocketSys.new maxSockets vfs hostAdapter) :=
  ⟨.new maxSockets vfs hostAdapter, .new maxSockets vfs hostAdapter⟩

theorem step (h : s.Paired) {act : SocketAction} (hc : s.linksAllowed act = true)
    (hs : s.step act = some s') : s'.Paired ∧ Buried s.table s'.table := by
  have hA : Meets linksAsked s act :=
    ⟨fun _ => hc, False.elim, False.elim, False.elim, False.elim, fun _ _ => trivial⟩
  obtain ⟨he, hok⟩ := step_effects h.ok hA hs
  exact ⟨⟨hok, .effects trivial h.peers h.ok.sound he⟩, .effects trivial h.ok.sound he⟩

theorem run (h : s.Paired)
    (r : Lts.Reach SocketSys.step (fun s act => s.linksAllowed act = true) s s') :
    s'.Paired ∧ Buried s.table s'.table := by
  refine Lts.Reach.invariant (I := fun u => u.Paired ∧ Buried s.table u.table)
    ⟨h, .refl _⟩ (fun u act u' hu hc hs => ?_) r
  obtain ⟨hp, hb⟩ := hu.1.step hc hs
  exact ⟨hp, hu.2.trans hb⟩

end Paired

/-- **Peer symmetry.**  In a run in which every connection that is linked finds its socket there
and without a peer, peers name each other in every state, and a destroyed socket is neither linked
nor queued again. -/
theorem peers_symmetric {maxSockets : Nat} {vfs hostAdapter : Bool} {s s' : SocketSys}
    (r : Lts.Reach step (fun s act => s.linksAllowed act = true)
      (new maxSockets vfs hostAdapter) s)
    (r' : Lts.Reach step (fun s act => s.linksAllowed act = true) s s') :
    (∀ a b, s.table.has a = true → (s.table.objs a).peerId = some b →
      s.table.has b = true ∧ (s.table.objs b).peerId = some a) ∧
    (∀ a a' b, s.table.has a = true → s.table.has a' = true →
      (s.table.objs a).peerId = some b → (s.table.objs a').peerId = some b → a = a') ∧
    ∀ id, s.table.Destroyed id →
      s'.table.has id = false ∧ (s'.table.objs id).peerId = (s.table.objs id).peerId ∧
      (∀ a, s'.table.has a = true → (s'.table.objs a).peerId ≠ some id) ∧
      ∀ l, id ∈ (s'.table.objs l).backlog → id ∈ (s.table.objs l).backlog := by
  obtain ⟨h, -⟩ := (Paired.new maxSockets vfs hostAdapter).run r
  obtain ⟨h', hb⟩ := h.run r'
  refine ⟨h.peers, fun _ _ _ ha ha' => h.peers.unique ha ha', fun id hd => ?_⟩
  have hgone := (hb.gone id hd).2
  refine ⟨hgone, hb.peer id hd, fun a ha hp => ?_, fun l => hb.queued id l hd⟩
  rw [(h'.peers a id ha hp).1] at hgone
  cases hgone

/-- A listener on a path, and a client that asks for a connection to it. -/
def connectToPath : List SocketAction :=
  [.call (.create 1 SOCK_STREAM 0 7 true), .call (.create 1 SOCK_STREAM 0 8 true),
    .call (.bind 1 (.unix "/s")), .resume 0 (.pathExists false true), .call (.listen 1 8 false none),
    .call (.connect 2 (.unix "/s") none true)]

/-- The connection is linked while the client is there; then the client is closed, and a pair is
made. -/
theorem peers_symmetric_closed : ∃ s s' : SocketSys,
    Lts.Reach step (fun s act => s.linksAllowed act = true) (new 8 true false) s ∧
    Lts.Reach step (fun s act => s.linksAllowed act = true) s s' ∧
    (s.table.objs 4).peerId = some 5 ∧ (s.table.objs 5).peerId = some 4 ∧
    s.table.Destroyed 2 ∧ ∀ a, s'.table.has a = true → (s'.table.objs a).peerId ≠ some 2 := by
  obtain ⟨s, hr, hlive, hpeer, hnext, hgone⟩ := Lts.Reach.exists_of_execIf step
    (fun s act => s.linksAllowed act = true) (new 8 true false)
    (connectToPath ++ [.resume 0 (.pathExists true true), .call (.close 2 8),
      .call (.socketpair 1 SOCK_STREAM 0 7 true)]) (P := fun s => s.table.has 4 = true ∧
        (s.table.objs 4).peerId = some 5 ∧ s.table.nextSocketId = 6 ∧ s.table.has 2 = false)
    (by decide +kernel)
  have hd : s.table.Destroyed 2 := ⟨by rw [hnext]; decide, hgone⟩
  have hclose : s.step (.call (.closeAllForProcess 8)) = some _ := rfl
  have hr' : Lts.Reach step (fun s act => s.linksAllowed act = true) s _ := .one rfl hclose
  obtain ⟨hmutual, -, hdead⟩ := peers_symmetric hr hr'
  exact ⟨s, _, hr, hr', hpeer, (hmutual 4 5 hlive hpeer).2, hd, (hdead 2 hd).2.2.1⟩

/-- The client is closed while the path is looked up: the server's socket is linked to a socket
that is gone. -/
theorem peers_symmetric_fails : ∃ s : SocketSys,
    Lts.Reach step Lts.Any (new 8 true false) s ∧
    s.table.has 3 = true ∧ (s.table.objs 3).peerId = some 2 ∧ s.table.has 2 = false :=
  Lts.Reach.exists_of_exec _ _ (connectToPath ++
    [.call (.close 2 8), .resume 0 (.pathExists true true)]) (by decide +kernel)

end SocketSys

end SecureExec.Socket
