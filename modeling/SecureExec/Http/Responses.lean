import SecureExec.Lib.Lts
import SecureExec.Lib.OMap
import SecureExec.Lib.PartialMap

/-!
# Http — Responses — whose response resolves which request

One host process runs several executions, each with HTTP servers under ids of its own.  The table of
pending requests and the queues by server id belong to the process; which server an id stands for is
looked up in the table of the execution that calls.

* `step`: a server that starts to listen, a request that comes in, a call of `respond` by a guest
  with any ids, and a close.
* `Proper`: a call that names the server of its own that the request came in on, or nothing that is
  pending; and servers that share no id while there are requests.
* `Sound.step`: a proper step keeps the books.
* `responses_accounted`: in a run of proper steps each request is resolved once at most, by the
  execution that owns its server, and the queues, counts and closes are right.
-/

namespace Http.Responses
open Lts Function PartialMap

/-- A server, as the closures of its execution hold it. -/
structure Server where
  execution : ℕ
  serverId : ℕ
  pendingRequests : ℕ
  closeRequested : Bool
  /-- The transport is closed, and who waits for the close is told. -/
  finalised : Bool
  deriving DecidableEq

/-- A pending request: the server id it is registered with, and the server whose request its
`resolve` answers. -/
structure Pending where
  serverId : ℕ
  server : ℕ
  deriving DecidableEq

/-- The host process, with all servers there have been. -/
structure HostProcess where
  servers : List Server
  /-- The servers of each execution by id. -/
  kernelHttpServers : ℕ × ℕ → Option ℕ
  pendingHttpResponses : OMap ℕ Pending
  pendingHttpResponsesByServer : ℕ → Option (List ℕ)
  nextHttpRequestId : ℕ

/-- A request of `server` was resolved by a call of `execution` that named `serverId`. -/
structure Resolved where
  requestId : ℕ
  server : ℕ
  execution : ℕ
  serverId : ℕ
  deriving DecidableEq

inductive Event where
  | listen (execution serverId : ℕ)
  /-- A request comes in on a server. -/
  | request (server : ℕ)
  | respond (execution serverId requestId : ℕ)
  | close (execution serverId : ℕ)
  deriving DecidableEq

namespace HostProcess

variable (s : HostProcess)

def init : HostProcess := ⟨[], fun _ => none, .empty, fun _ => none, 1⟩

def modify (i : ℕ) (f : Server → Server) : HostProcess := { s with servers := s.servers.modify i f }

def registerPendingHttpResponse (serverId requestId server : ℕ) : HostProcess :=
  let queue :=
    match s.pendingHttpResponsesByServer serverId with
    | some queue => queue ++ [requestId]
    | none => [requestId]
  { s with
    pendingHttpResponses := s.pendingHttpResponses.set requestId ⟨serverId, server⟩
    pendingHttpResponsesByServer :=
      update s.pendingHttpResponsesByServer serverId (some queue) }

/-- What is left of a queue when a request is taken out of it. -/
def unqueue (queue : Option (List ℕ)) (requestId : ℕ) : Option (List ℕ) :=
  match queue with
  | some queue => if queue.erase requestId = [] then none else some (queue.erase requestId)
  | none => none

def removePendingHttpResponse (serverId requestId : ℕ) : HostProcess × Option Pending :=
  match s.pendingHttpResponses.get requestId with
  | none => (s, none)
  | some pending =>
    ({ s with
        pendingHttpResponses := s.pendingHttpResponses.delete requestId
        pendingHttpResponsesByServer :=
          update s.pendingHttpResponsesByServer serverId
            (unqueue (s.pendingHttpResponsesByServer serverId) requestId) },
      some pending)

/-- Server `i`, under `serverId` in `execution`. -/
def finalizeKernelServerClose (execution serverId i : ℕ) : HostProcess :=
  match s.servers[i]? with
  | none => s
  | some sv =>
    if sv.closeRequested = false ∨ 0 < sv.pendingRequests then s
    else
      { s.modify i fun sv => { sv with finalised := true } with
        kernelHttpServers := update s.kernelHttpServers (execution, serverId) none }

def listen (execution serverId : ℕ) : HostProcess :=
  { s with
    servers := s.servers ++ [⟨execution, serverId, 0, false, false⟩]
    kernelHttpServers :=
      update s.kernelHttpServers (execution, serverId) (some s.servers.length) }

def request (i : ℕ) (sv : Server) : HostProcess :=
  let t := s.registerPendingHttpResponse sv.serverId s.nextHttpRequestId i
  { t.modify i fun sv => { sv with pendingRequests := sv.pendingRequests + 1 } with
    nextHttpRequestId := s.nextHttpRequestId + 1 }

/-- The count and the close after a response. -/
def discount (execution serverId : ℕ) : HostProcess :=
  match s.kernelHttpServers (execution, serverId) with
  | none => s
  | some i =>
    (s.modify i fun sv => { sv with
      pendingRequests := sv.pendingRequests - 1 }).finalizeKernelServerClose execution serverId i

/-- `networkHttpServerRespondRaw`. -/
def respond (execution serverId requestId : ℕ) : HostProcess × List Resolved :=
  let (t, pending) := s.removePendingHttpResponse serverId requestId
  (t.discount execution serverId,
    (pending.map fun p => (⟨requestId, p.server, execution, serverId⟩ : Resolved)).toList)

/-- `networkHttpServerCloseRaw`, which throws where the execution has no such server. -/
def close (execution serverId : ℕ) : HostProcess :=
  match s.kernelHttpServers (execution, serverId) with
  | none => s
  | some i =>
    (s.modify i fun sv => { sv with
      closeRequested := true }).finalizeKernelServerClose execution serverId i

def step : Event → Option (HostProcess × List Resolved)
  | .listen execution serverId => some (s.listen execution serverId, [])
  | .request i => (s.servers[i]?).map fun sv => (s.request i sv, [])
  | .respond execution serverId requestId => some (s.respond execution serverId requestId)
  | .close execution serverId => some (s.close execution serverId, [])

/-! ### The books -/

/-- The ids of the requests of server `i` that are not resolved, in the order they came in. -/
def unresolved (i : ℕ) : List ℕ := s.pendingHttpResponses.keysOf fun p => p.server = i

/-- The queue of a server id. -/
def queue (serverId : ℕ) : List ℕ := (s.pendingHttpResponsesByServer serverId).getD []

/-- The queues, the counts and the closes are what they should be. -/
structure Accounted (s : HostProcess) : Prop where
  queue : ∀ (i : ℕ) (sv : Server), s.servers[i]? = some sv → sv.finalised = false →
    s.queue sv.serverId = s.unresolved i
  count : ∀ (i : ℕ) (sv : Server), s.servers[i]? = some sv →
    sv.pendingRequests = (s.unresolved i).length
  finalised : ∀ (i : ℕ) (sv : Server), s.servers[i]? = some sv →
    (sv.finalised = true ↔ sv.closeRequested = true ∧ sv.pendingRequests = 0)

/-- The steps that keep the books.

A server is not started under an id that its execution has in use, or that requests of another wait
under.  A request comes in on a server that its execution has, and no other execution has one of
the id.  A response names the server that the request came in on and comes from its execution; or
else the request is not pending, and what it names has no pending request either. -/
def Proper (s : HostProcess) : Event → Prop
  | .listen execution serverId =>
    s.kernelHttpServers (execution, serverId) = none ∧ s.queue serverId = []
  | .request i => ∀ sv, s.servers[i]? = some sv →
    s.kernelHttpServers (sv.execution, sv.serverId) = some i ∧
      ∀ x, x ≠ sv.execution → s.kernelHttpServers (x, sv.serverId) = none
  | .respond execution serverId requestId =>
    match s.pendingHttpResponses.get requestId with
    | some p => ∃ sv, s.servers[p.server]? = some sv ∧ sv.execution = execution ∧
      sv.serverId = serverId
    | none => ∀ i sv, s.kernelHttpServers (execution, serverId) = some i →
      s.servers[i]? = some sv → sv.pendingRequests = 0
  | .close _ _ => True

/-- Each execution's table lists its servers that are not finalised. -/
structure Indexed (s : HostProcess) : Prop where
  registered : ∀ x id i, s.kernelHttpServers (x, id) = some i →
    ∃ sv, s.servers[i]? = some sv ∧ sv.execution = x ∧ sv.serverId = id ∧ sv.finalised = false
  live : ∀ (i : ℕ) (sv : Server), s.servers[i]? = some sv → sv.finalised = false →
    s.kernelHttpServers (sv.execution, sv.serverId) = some i

/-- A pending request came in on a server and is registered with its id. -/
def Registered (s : HostProcess) : Prop :=
  ∀ r p, s.pendingHttpResponses.get r = some p → r < s.nextHttpRequestId ∧
    ∃ sv, s.servers[p.server]? = some sv ∧ sv.serverId = p.serverId

/-- What a run keeps. -/
structure Sound (s : HostProcess) : Prop extends Accounted s, Indexed s where
  pending : s.Registered

/-- Server `i` is finalised if it is to be closed and has no request. -/
def Finalised (s : HostProcess) (i : ℕ) : Prop := ∀ sv, s.servers[i]? = some sv →
  (sv.finalised = true ↔ sv.closeRequested = true ∧ sv.pendingRequests = 0)

/-- All that a run keeps, with server `i` not looked at for its close. -/
structure SoundBut (s : HostProcess) (i : ℕ) : Prop extends Indexed s where
  queue : ∀ (j : ℕ) (sv : Server), s.servers[j]? = some sv → sv.finalised = false →
    s.queue sv.serverId = s.unresolved j
  count : ∀ (j : ℕ) (sv : Server), s.servers[j]? = some sv →
    sv.pendingRequests = (s.unresolved j).length
  finalised : ∀ j, j ≠ i → s.Finalised j
  pending : s.Registered

variable {s t : HostProcess} {i j : ℕ} {sv : Server} {f : Server → Server}

/-! ### A change of one server -/

/-- A change that leaves a server's place. -/
def Keeps (f : Server → Server) : Prop := ∀ sv, (f sv).execution = sv.execution ∧
  (f sv).serverId = sv.serverId ∧ (f sv).finalised = sv.finalised

variable {l : List Server}

theorem getElem_modify_eq_some (h : (l.modify i f)[j]? = some sv) :
    ∃ sv₀, l[j]? = some sv₀ ∧ sv = if i = j then f sv₀ else sv₀ := by
  rw [List.getElem?_modify] at h
  obtain ⟨sv₀, h₀, rfl⟩ := Option.map_eq_some_iff.mp h
  exact ⟨sv₀, h₀, rfl⟩

theorem Keeps.of_modify (hf : Keeps f) (h : (l.modify i f)[j]? = some sv) :
    ∃ sv₀, l[j]? = some sv₀ ∧ sv₀.execution = sv.execution ∧ sv₀.serverId = sv.serverId ∧
      sv₀.finalised = sv.finalised := by
  obtain ⟨sv₀, h₀, rfl⟩ := getElem_modify_eq_some h
  refine ⟨sv₀, h₀, ?_⟩
  obtain ⟨h₁, h₂, h₃⟩ := hf sv₀
  split
  · exact ⟨h₁.symm, h₂.symm, h₃.symm⟩
  · exact ⟨rfl, rfl, rfl⟩

theorem Keeps.to_modify (hf : Keeps f) (h : l[j]? = some sv) :
    ∃ sv', (l.modify i f)[j]? = some sv' ∧ sv'.execution = sv.execution ∧
      sv'.serverId = sv.serverId ∧ sv'.finalised = sv.finalised := by
  refine ⟨if i = j then f sv else sv, by simp [List.getElem?_modify, h], ?_⟩
  split
  · exact hf sv
  · exact ⟨rfl, rfl, rfl⟩

theorem Indexed.modify (h : s.Indexed) (hf : Keeps f) (ht : t.servers = s.servers.modify i f)
    (hk : t.kernelHttpServers = s.kernelHttpServers) : t.Indexed where
  registered := by
    intro x id j hj
    rw [hk] at hj
    obtain ⟨sv, hsv, rfl, rfl, hfin⟩ := h.registered x id j hj
    rw [ht, ← hfin]
    exact hf.to_modify hsv
  live := by
    intro j sv hsv hfin
    rw [ht] at hsv
    obtain ⟨sv₀, h₀, hx, hid, hfin₀⟩ := hf.of_modify hsv
    rw [hk, ← hx, ← hid]
    exact h.live j sv₀ h₀ (hfin₀.trans hfin)

theorem Registered.modify (h : s.Registered) (hf : Keeps f)
    (ht : t.servers = s.servers.modify i f)
    (hp : ∀ r p, t.pendingHttpResponses.get r = some p → s.pendingHttpResponses.get r = some p)
    (hn : s.nextHttpRequestId ≤ t.nextHttpRequestId) : t.Registered := by
  intro r p hr
  obtain ⟨hlt, sv, hsv, hid⟩ := h r p (hp r p hr)
  obtain ⟨sv', hsv', -, hid', -⟩ := hf.to_modify (i := i) hsv
  rw [ht]
  exact ⟨Nat.lt_of_lt_of_le hlt hn, sv', hsv', hid'.trans hid⟩

/-- The close of the one server that was not looked at. -/
theorem SoundBut.finalize (hi : s.servers[i]? = some sv) (hl : sv.finalised = false)
    (h : s.SoundBut i) :
    (s.finalizeKernelServerClose sv.execution sv.serverId i).Sound := by
  have hk := h.live i sv hi hl
  simp only [finalizeKernelServerClose, hi]
  split
  · rename_i hc
    have hfin : s.Finalised i := by
      intro sv' h'
      rw [hi] at h'
      cases h'
      simp only [hl, Bool.false_eq_true, false_iff, not_and]
      rcases hc with hc | hc
      · simp [hc]
      · exact fun _ => Nat.ne_of_gt hc
    refine ⟨⟨h.queue, h.count, fun j sv hj => ?_⟩, h.toIndexed, h.pending⟩
    by_cases hji : j = i
    · subst hji
      exact hfin sv hj
    · exact h.finalised j hji sv hj
  · rename_i hc
    simp only [not_or, Bool.not_eq_false, Nat.not_lt, Nat.le_zero] at hc
    -- every other server is as it was, and is under another key
    have hold : ∀ (j : ℕ) (sv' : Server),
        (s.servers.modify i fun sv => { sv with finalised := true })[j]? = some sv' →
        (j = i ∧ sv' = { sv with finalised := true }) ∨ (j ≠ i ∧ s.servers[j]? = some sv') := by
      intro j sv' h'
      obtain ⟨sv₀, h₀, rfl⟩ := getElem_modify_eq_some h'
      by_cases hji : i = j
      · subst hji
        rw [hi] at h₀
        cases h₀
        exact .inl ⟨rfl, if_pos rfl⟩
      · rw [if_neg hji]
        exact .inr ⟨fun h => hji h.symm, h₀⟩
    refine ⟨⟨fun j sv' hj hl' => ?_, fun j sv' hj => ?_, fun j sv' hj => ?_⟩,
      ⟨fun x id j hj => ?_, fun j sv' hj hl' => ?_⟩, fun r p hr => ?_⟩
    · rcases hold j sv' hj with ⟨-, rfl⟩ | ⟨-, hj⟩
      · cases hl'
      · exact h.queue j sv' hj hl'
    · rcases hold j sv' hj with ⟨rfl, rfl⟩ | ⟨-, hj⟩
      · exact h.count j sv hi
      · exact h.count j sv' hj
    · rcases hold j sv' hj with ⟨rfl, rfl⟩ | ⟨hji, hj⟩
      · exact iff_of_true rfl hc
      · exact h.finalised j hji sv' hj
    · obtain ⟨hne, hj⟩ := erase_eq_some.mp hj
      obtain ⟨sv', hsv', rfl, rfl, hl'⟩ := h.registered x id j hj
      have hji : i ≠ j := by
        rintro rfl
        rw [hi] at hsv'
        cases hsv'
        exact hne rfl
      exact ⟨sv', by simpa [modify, List.getElem?_modify, hji] using hsv', rfl, rfl, hl'⟩
    · rcases hold j sv' hj with ⟨-, rfl⟩ | ⟨hji, hj⟩
      · cases hl'
      · have hj' := h.live j sv' hj hl'
        refine erase_eq_some.mpr ⟨fun heq => hji ?_, hj'⟩
        rw [heq, hk] at hj'
        exact (Option.some.inj hj').symm
    · obtain ⟨hlt, sv', hsv', hid⟩ := h.pending r p hr
      by_cases hpi : i = p.server
      · rw [← hpi, hi] at hsv'
        cases hsv'
        exact ⟨hlt, { sv with finalised := true }, by simp [modify, ← hpi, hi], hid⟩
      · exact ⟨hlt, sv', by simpa [modify, List.getElem?_modify, hpi] using hsv', hid⟩

/-! ### The steps -/

theorem Sound.init : init.Sound where
  queue := fun _ _ h => by simp [HostProcess.init] at h
  count := fun _ _ h => by simp [HostProcess.init] at h
  finalised := fun _ _ h => by simp [HostProcess.init] at h
  registered := fun _ _ _ h => by cases h
  live := fun _ _ h => by simp [HostProcess.init] at h
  pending := fun _ _ h => by simp [HostProcess.init, OMap.get, OMap.empty] at h

variable {r : ℕ}

theorem mem_unresolved :
    r ∈ s.unresolved i ↔ ∃ p, s.pendingHttpResponses.get r = some p ∧ p.server = i := by
  simp [unresolved, OMap.mem_keysOf]

variable {x : ℕ}

theorem Sound.listen {id : ℕ} (h : s.Sound) (hp : s.Proper (.listen x id)) :
    (s.listen x id).Sound := by
  obtain ⟨hk, hq⟩ := hp
  have hold : ∀ (j : ℕ) (sv : Server), (s.listen x id).servers[j]? = some sv →
      s.servers[j]? = some sv ∨ (j = s.servers.length ∧ sv = ⟨x, id, 0, false, false⟩) := by
    intro j sv hj
    simp only [HostProcess.listen, List.getElem?_append] at hj
    split at hj
    · exact .inl hj
    · rename_i hge
      have hlt := (List.getElem?_eq_some_iff.mp hj).1
      have hj' : j = s.servers.length := by
        simp at hlt
        omega
      subst hj'
      simp only [Nat.sub_self, List.getElem?_cons_zero, Option.some.injEq] at hj
      exact .inr ⟨rfl, hj.symm⟩
  have hnew : ∀ (j : ℕ) (sv : Server), s.servers[j]? = some sv →
      (s.listen x id).servers[j]? = some sv := fun j sv hj => by
    rw [HostProcess.listen, List.getElem?_append_left (List.getElem?_eq_some_iff.mp hj).1, hj]
  have hnone : s.unresolved s.servers.length = [] := by
    rw [List.eq_nil_iff_forall_not_mem]
    rintro r hr
    obtain ⟨p, hp, hpi⟩ := mem_unresolved.mp hr
    obtain ⟨-, sv, hsv, -⟩ := h.pending r p hp
    rw [hpi] at hsv
    simp at hsv
  refine ⟨⟨fun j sv hj hl => ?_, fun j sv hj => ?_, fun j sv hj => ?_⟩,
    ⟨fun x' id' j hj => ?_, fun j sv hj hl => ?_⟩, fun r p hr => ?_⟩
  · rcases hold j sv hj with hj | ⟨rfl, rfl⟩
    · exact h.queue j sv hj hl
    · exact hq.trans hnone.symm
  · rcases hold j sv hj with hj | ⟨rfl, rfl⟩
    · exact h.count j sv hj
    · exact (congrArg List.length hnone).symm
  · rcases hold j sv hj with hj | ⟨rfl, rfl⟩
    · exact h.finalised j sv hj
    · simp
  · rcases set_eq_some.mp hj with ⟨heq, rfl⟩ | ⟨-, hj⟩
    · cases heq
      exact ⟨⟨x, id, 0, false, false⟩, by simp [HostProcess.listen], rfl, rfl, rfl⟩
    · obtain ⟨sv, hsv, hsv'⟩ := h.registered x' id' j hj
      exact ⟨sv, hnew j sv hsv, hsv'⟩
  · rcases hold j sv hj with hj | ⟨rfl, rfl⟩
    · have hj' := h.live j sv hj hl
      refine set_eq_some.mpr (.inr ⟨fun heq => ?_, hj'⟩)
      rw [heq, hk] at hj'
      cases hj'
    · exact set_eq_some.mpr (.inl ⟨rfl, rfl⟩)
  · obtain ⟨hlt, sv, hsv, hid⟩ := h.pending r p hr
    exact ⟨hlt, sv, hnew _ sv hsv, hid⟩

theorem queue_register (serverId requestId server id : ℕ) :
    (s.registerPendingHttpResponse serverId requestId server).queue id =
      s.queue id ++ if id = serverId then [requestId] else [] := by
  simp only [queue, registerPendingHttpResponse]
  by_cases h : id = serverId
  · subst h
    rw [update_self, if_pos rfl]
    cases s.pendingHttpResponsesByServer id <;> rfl
  · rw [update_of_ne h, if_neg h, List.append_nil]

theorem Sound.request (h : s.Sound) (hi : s.servers[i]? = some sv)
    (hp : s.Proper (.request i)) : (s.request i sv).Sound := by
  obtain ⟨hk, hother⟩ := hp sv hi
  have hl : sv.finalised = false := by
    obtain ⟨sv', hsv', -, -, hl⟩ := h.registered _ _ _ hk
    rw [hi] at hsv'
    cases hsv'
    exact hl
  have hnew : s.pendingHttpResponses.get s.nextHttpRequestId = none := by
    cases hg : s.pendingHttpResponses.get s.nextHttpRequestId with
    | none => rfl
    | some p => exact absurd (h.pending _ p hg).1 (Nat.lt_irrefl _)
  have hun : ∀ j, (s.request i sv).unresolved j =
      s.unresolved j ++ if j = i then [s.nextHttpRequestId] else [] := by
    intro j
    have := s.pendingHttpResponses.keysOf_set (fun p => p.server = j) hnew ⟨sv.serverId, i⟩
    simpa [unresolved, HostProcess.request, registerPendingHttpResponse, modify,
      eq_comm (a := i)] using this
  have hkeeps : Keeps fun sv : Server => { sv with pendingRequests := sv.pendingRequests + 1 } :=
    fun _ => ⟨rfl, rfl, rfl⟩
  refine ⟨⟨fun j sv' hj hl' => ?_, fun j sv' hj => ?_, fun j sv' hj => ?_⟩,
    h.toIndexed.modify hkeeps rfl rfl, fun r p hr => ?_⟩
  · obtain ⟨sv₀, h₀, hx, hid, hl₀⟩ := hkeeps.of_modify hj
    have hq : (s.request i sv).queue sv'.serverId = s.queue sv'.serverId ++
        if sv'.serverId = sv.serverId then [s.nextHttpRequestId] else [] :=
      queue_register sv.serverId s.nextHttpRequestId i sv'.serverId
    rw [hq, hun, ← hid, h.queue j sv₀ h₀ (hl₀.trans hl')]
    replace h₀ : s.servers[j]? = some sv₀ := h₀
    -- the only server with the id is the one that the request came in on
    have hiff : sv₀.serverId = sv.serverId ↔ j = i := by
      constructor
      · intro heq
        have hj' := h.live j sv₀ h₀ (hl₀.trans hl')
        rw [heq] at hj'
        by_cases hxe : sv₀.execution = sv.execution
        · rw [hxe, hk] at hj'
          exact (Option.some.inj hj').symm
        · rw [hother _ hxe] at hj'
          cases hj'
      · rintro rfl
        rw [hi] at h₀
        cases h₀
        rfl
    simp only [hiff]
  · obtain ⟨sv₀, h₀, rfl⟩ := getElem_modify_eq_some hj
    rw [hun, List.length_append, ← h.count j sv₀ h₀]
    by_cases hij : i = j
    · simp [hij]
    · simp [hij, Ne.symm hij]
  · obtain ⟨sv₀, h₀, rfl⟩ := getElem_modify_eq_some hj
    replace h₀ : s.servers[j]? = some sv₀ := h₀
    by_cases hij : i = j
    · subst hij
      rw [hi] at h₀
      cases h₀
      simp [hl]
    · rw [if_neg hij]
      exact h.finalised j sv₀ h₀
  · by_cases hrn : r = s.nextHttpRequestId
    · subst hrn
      have hp : p = ⟨sv.serverId, i⟩ := by
        simpa [HostProcess.request, registerPendingHttpResponse, modify, eq_comm] using hr
      subst hp
      obtain ⟨sv', hsv', -, hid, -⟩ := hkeeps.to_modify (i := i) hi
      exact ⟨Nat.lt_succ_self _, sv', hsv', hid⟩
    · have hr' : s.pendingHttpResponses.get r = some p := by
        rw [← hr]
        exact (OMap.get_set_other _ hrn _).symm
      obtain ⟨hlt, sv', hsv', hid⟩ := h.pending r p hr'
      obtain ⟨sv'', hsv'', -, hid', -⟩ := hkeeps.to_modify (i := i) hsv'
      exact ⟨Nat.lt_succ_of_lt hlt, sv'', hsv'', hid'.trans hid⟩

theorem Sound.close {id : ℕ} (h : s.Sound) : (s.close x id).Sound := by
  simp only [HostProcess.close]
  split
  · exact h
  · rename_i i hk
    obtain ⟨sv, hi, rfl, rfl, hl⟩ := h.registered x id i hk
    have hkeeps : Keeps fun sv : Server => { sv with closeRequested := true } :=
      fun _ => ⟨rfl, rfl, rfl⟩
    have hi' : (s.modify i fun sv => { sv with closeRequested := true }).servers[i]? =
        some { sv with closeRequested := true } := by
      simp [modify, hi]
    suffices hb : SoundBut _ i by
      have ht := SoundBut.finalize hi' hl hb
      exact ht
    refine ⟨h.toIndexed.modify hkeeps rfl rfl, fun j sv' hj hl' => ?_, fun j sv' hj => ?_,
      fun j hji sv' hj => ?_, h.pending.modify hkeeps rfl (fun _ _ => id) le_rfl⟩
    · obtain ⟨sv₀, h₀, -, hid, hl₀⟩ := hkeeps.of_modify hj
      rw [← hid]
      exact h.queue j sv₀ h₀ (hl₀.trans hl')
    · obtain ⟨sv₀, h₀, rfl⟩ := getElem_modify_eq_some hj
      rw [apply_ite Server.pendingRequests, ite_self]
      exact h.count j sv₀ h₀
    · obtain ⟨sv₀, h₀, rfl⟩ := getElem_modify_eq_some hj
      rw [if_neg (Ne.symm hji)]
      exact h.finalised j sv₀ h₀

theorem unqueue_getD (queue : Option (List ℕ)) (r : ℕ) :
    (unqueue queue r).getD [] = (queue.getD []).erase r := by
  cases queue with
  | none => rfl
  | some q =>
      simp only [unqueue]
      split
      · rename_i h
        simp [h]
      · rfl

/-- A response to a request that came in on the server that is named. -/
theorem Sound.respond_pending {p : Pending} (h : s.Sound)
    (hr : s.pendingHttpResponses.get r = some p) (hi : s.servers[p.server]? = some sv) :
    (s.respond sv.execution sv.serverId r).1.Sound := by
  have hmem : r ∈ s.unresolved p.server := mem_unresolved.mpr ⟨p, hr, rfl⟩
  have hl : sv.finalised = false := by
    cases hf : sv.finalised with
    | false => rfl
    | true =>
        have hz := ((h.finalised _ sv hi).mp hf).2
        rw [h.count _ sv hi, List.length_eq_zero_iff] at hz
        rw [hz] at hmem
        cases hmem
  have hk := h.live _ sv hi hl
  have hkeeps : Keeps fun sv : Server => { sv with pendingRequests := sv.pendingRequests - 1 } :=
    fun _ => ⟨rfl, rfl, rfl⟩
  simp only [HostProcess.respond, removePendingHttpResponse, hr, discount, hk]
  have hi' : ({ s with
      pendingHttpResponses := s.pendingHttpResponses.delete r
      pendingHttpResponsesByServer :=
        update s.pendingHttpResponsesByServer sv.serverId
          (unqueue (s.pendingHttpResponsesByServer sv.serverId) r) }.modify p.server fun sv =>
        { sv with pendingRequests := sv.pendingRequests - 1 }).servers[p.server]? =
      some { sv with pendingRequests := sv.pendingRequests - 1 } := by
    simp [modify, hi]
  suffices hb : SoundBut _ p.server by
    have ht := SoundBut.finalize hi' hl hb
    exact ht
  refine ⟨h.toIndexed.modify hkeeps rfl rfl, fun j sv' hj hl' => ?_, fun j sv' hj => ?_,
    fun j hji sv' hj => ?_, h.pending.modify hkeeps rfl (fun r' p' hr' => ?_) le_rfl⟩
  · obtain ⟨sv₀, h₀, -, hid, hl₀⟩ := hkeeps.of_modify hj
    have hun : s.queue sv'.serverId = s.unresolved j := hid ▸ h.queue j sv₀ h₀ (hl₀.trans hl')
    have hunr := s.pendingHttpResponses.keysOf_delete (fun p => p.server = j) r
    simp only [queue, unresolved, modify]
    rw [hunr]
    by_cases hids : sv'.serverId = sv.serverId
    · rw [hids, update_self, unqueue_getD, ← hids]
      exact congrArg (List.erase · r) hun
    · have hnr : r ∉ s.unresolved j := by
        intro hm
        obtain ⟨p', hr', rfl⟩ := mem_unresolved.mp hm
        rw [hr] at hr'
        cases hr'
        replace h₀ : s.servers[p.server]? = some sv₀ := h₀
        rw [hi] at h₀
        cases h₀
        exact hids hid.symm
      rw [update_of_ne hids]
      exact hun.trans (List.erase_of_not_mem hnr).symm
  · obtain ⟨sv₀, h₀, rfl⟩ := getElem_modify_eq_some hj
    replace h₀ : s.servers[j]? = some sv₀ := h₀
    have hunr := s.pendingHttpResponses.keysOf_delete (fun p => p.server = j) r
    simp only [unresolved, modify]
    rw [hunr]
    by_cases hij : p.server = j
    · subst hij
      rw [if_pos rfl]
      change sv₀.pendingRequests - 1 = ((s.unresolved p.server).erase r).length
      rw [List.length_erase_of_mem hmem, h.count _ sv₀ h₀]
    · have hnr : r ∉ s.unresolved j := by
        intro hm
        obtain ⟨p', hr', rfl⟩ := mem_unresolved.mp hm
        rw [hr] at hr'
        cases hr'
        exact hij rfl
      rw [if_neg hij, h.count j sv₀ h₀]
      exact congrArg List.length (List.erase_of_not_mem hnr).symm
  · obtain ⟨sv₀, h₀, rfl⟩ := getElem_modify_eq_some hj
    rw [if_neg (Ne.symm hji)]
    exact h.finalised j sv₀ h₀
  · rw [modify, OMap.get_delete] at hr'
    split at hr'
    · cases hr'
    · exact hr'

theorem modify_eq_self (hi : s.servers[i]? = some sv) (hf : f sv = sv) : s.modify i f = s := by
  have hm : s.servers.modify i f = s.servers := by
    apply List.ext_getElem?
    intro j
    rw [List.getElem?_modify]
    by_cases hij : i = j
    · subst hij
      simp [hi, hf]
    · simp [hij]
  rw [modify, hm]

/-- A response to nothing, to a server that waits for none. -/
theorem Sound.respond_none {id : ℕ} (h : s.Sound) (hr : s.pendingHttpResponses.get r = none)
    (hp : ∀ i sv, s.kernelHttpServers (x, id) = some i → s.servers[i]? = some sv →
      sv.pendingRequests = 0) : (s.respond x id r).1.Sound := by
  simp only [HostProcess.respond, removePendingHttpResponse, hr, discount]
  split
  · exact h
  · rename_i i hk
    obtain ⟨sv, hi, rfl, rfl, hl⟩ := h.registered x id i hk
    have hz := hp i sv hk hi
    rw [modify_eq_self hi (by rw [hz, Nat.zero_sub, ← hz])]
    exact SoundBut.finalize hi hl
      ⟨h.toIndexed, h.queue, h.count, fun j _ => h.finalised j, h.pending⟩

variable {e : Event} {notes : List Resolved}

theorem Sound.step (h : s.Sound) (hp : s.Proper e)
    (hs : s.step e = some (t, notes)) : t.Sound := by
  cases e with
  | listen x id =>
      cases hs
      exact h.listen hp
  | request i =>
      obtain ⟨sv, hi, hs⟩ := Option.map_eq_some_iff.mp hs
      cases hs
      exact h.request hi hp
  | respond x id r =>
      obtain rfl : (s.respond x id r).1 = t := congrArg Prod.fst (Option.some.inj hs)
      cases hr : s.pendingHttpResponses.get r with
      | none =>
          simp only [Proper, hr] at hp
          exact h.respond_none hr hp
      | some p =>
          simp only [Proper, hr] at hp
          obtain ⟨sv, hi, rfl, rfl⟩ := hp
          exact h.respond_pending hr hi
  | close x id =>
      cases hs
      exact h.close

/-! ### Who resolves -/

/-- The notes are of requests that came in and are pending no more, each there once, and resolved
by the execution of the server that the call named. -/
structure Settled (s : HostProcess) (notes : List Resolved) : Prop where
  nodup : (notes.map (·.requestId)).Nodup
  gone : ∀ n ∈ notes, n.requestId < s.nextHttpRequestId ∧
    s.pendingHttpResponses.get n.requestId = none
  owner : ∀ n ∈ notes, ∃ sv, s.servers[n.server]? = some sv ∧ sv.execution = n.execution ∧
    sv.serverId = n.serverId

/-- What stays of servers and requests. -/
structure Later (s t : HostProcess) : Prop where
  place : ∀ (i : ℕ) (sv : Server), s.servers[i]? = some sv → ∃ sv', t.servers[i]? = some sv' ∧
    sv'.execution = sv.execution ∧ sv'.serverId = sv.serverId
  next : s.nextHttpRequestId ≤ t.nextHttpRequestId
  gone : ∀ r, r < s.nextHttpRequestId → s.pendingHttpResponses.get r = none →
    t.pendingHttpResponses.get r = none

theorem Later.refl : s.Later s := ⟨fun _ sv h => ⟨sv, h, rfl, rfl⟩, le_rfl, fun _ _ h => h⟩

theorem Later.trans {u : HostProcess} (h : s.Later t) (h' : t.Later u) : s.Later u where
  place := by
    intro i sv hi
    obtain ⟨sv', hi', hx, hid⟩ := h.place i sv hi
    obtain ⟨sv'', hi'', hx', hid'⟩ := h'.place i sv' hi'
    exact ⟨sv'', hi'', hx'.trans hx, hid'.trans hid⟩
  next := h.next.trans h'.next
  gone := fun r hr hg => h'.gone r (Nat.lt_of_lt_of_le hr h.next) (h.gone r hr hg)

theorem later_modify (ht : t.servers = s.servers.modify i f)
    (hn : t.nextHttpRequestId = s.nextHttpRequestId)
    (hp : t.pendingHttpResponses = s.pendingHttpResponses)
    (hf : ∀ sv, (f sv).execution = sv.execution ∧ (f sv).serverId = sv.serverId) : s.Later t where
  place := by
    intro j sv hj
    rw [ht, List.getElem?_modify, hj]
    refine ⟨_, rfl, ?_⟩
    split
    · exact hf sv
    · exact ⟨rfl, rfl⟩
  next := hn.ge
  gone := fun r _ hg => hp ▸ hg

theorem later_finalize (x id i : ℕ) : s.Later (s.finalizeKernelServerClose x id i) := by
  simp only [finalizeKernelServerClose]
  split
  · exact .refl
  · split
    · exact .refl
    · exact later_modify rfl rfl rfl fun _ => ⟨rfl, rfl⟩

theorem later_discount (x id : ℕ) : s.Later (s.discount x id) := by
  simp only [discount]
  split
  · exact .refl
  · refine .trans ?_ (later_finalize x id _)
    exact later_modify rfl rfl rfl fun _ => ⟨rfl, rfl⟩

theorem later_remove (id r : ℕ) : s.Later (s.removePendingHttpResponse id r).1 := by
  simp only [removePendingHttpResponse]
  split
  · exact .refl
  · refine ⟨Later.refl.place, le_rfl, fun r' _ hg => ?_⟩
    rw [OMap.get_delete]
    split
    · rfl
    · exact hg

theorem later_step (hs : s.step e = some (t, notes)) :
    s.Later t := by
  cases e with
  | listen x id =>
      cases hs
      refine ⟨fun j sv hj => ⟨sv, ?_, rfl, rfl⟩, le_rfl, fun _ _ hg => hg⟩
      rw [HostProcess.listen, List.getElem?_append_left (List.getElem?_eq_some_iff.mp hj).1, hj]
  | request i =>
      obtain ⟨sv, hi, hs⟩ := Option.map_eq_some_iff.mp hs
      cases hs
      have hl := later_modify (s := s) (t := s.modify i fun sv =>
        { sv with pendingRequests := sv.pendingRequests + 1 }) rfl rfl rfl fun _ => ⟨rfl, rfl⟩
      refine ⟨hl.place, Nat.le_succ _, fun r hr hg => ?_⟩
      exact (OMap.get_set_other _ (Nat.ne_of_lt hr) _).trans hg
  | respond x id r =>
      obtain rfl : (s.respond x id r).1 = t := congrArg Prod.fst (Option.some.inj hs)
      exact (later_remove id r).trans (later_discount x id)
  | close x id =>
      cases hs
      simp only [HostProcess.close]
      split
      · exact .refl
      · refine .trans ?_ (later_finalize x id _)
        exact later_modify rfl rfl rfl fun _ => ⟨rfl, rfl⟩

theorem Settled.later (h : s.Settled notes) (hl : s.Later t) :
    t.Settled notes where
  nodup := h.nodup
  gone := fun n hn => ⟨Nat.lt_of_lt_of_le (h.gone n hn).1 hl.next,
    hl.gone _ (h.gone n hn).1 (h.gone n hn).2⟩
  owner := by
    intro n hn
    obtain ⟨sv, hi, hx, hid⟩ := h.owner n hn
    obtain ⟨sv', hi', hx', hid'⟩ := hl.place _ sv hi
    exact ⟨sv', hi', hx'.trans hx, hid'.trans hid⟩

theorem Settled.step {more : List Resolved} (hso : s.Sound)
    (h : s.Settled notes) (hp : s.Proper e) (hs : s.step e = some (t, more)) :
    t.Settled (notes ++ more) := by
  have ht := h.later (later_step hs)
  cases e with
  | listen x id | close x id =>
      cases hs
      rw [List.append_nil]
      exact ht
  | request i =>
      obtain ⟨sv, hi, hs⟩ := Option.map_eq_some_iff.mp hs
      cases hs
      rw [List.append_nil]
      exact ht
  | respond x id r =>
      obtain rfl : (s.respond x id r).1 = t := congrArg Prod.fst (Option.some.inj hs)
      obtain rfl : (s.respond x id r).2 = more := congrArg Prod.snd (Option.some.inj hs)
      cases hr : s.pendingHttpResponses.get r with
      | none =>
          have hm : (s.respond x id r).2 = [] := by
            simp [HostProcess.respond, removePendingHttpResponse, hr]
          rw [hm, List.append_nil]
          exact ht
      | some p =>
          have hm : (s.respond x id r).2 = [⟨r, p.server, x, id⟩] := by
            simp [HostProcess.respond, removePendingHttpResponse, hr]
          simp only [Proper, hr] at hp
          obtain ⟨sv, hi, hx, hid⟩ := hp
          obtain ⟨sv', hi', hx', hid'⟩ := (later_step hs).place _ sv hi
          have hnew : ∀ n ∈ notes, n.requestId ≠ r := by
            intro n hn heq
            have hg := (h.gone n hn).2
            rw [heq, hr] at hg
            cases hg
          have hgone : (s.respond x id r).1.pendingHttpResponses.get r = none := by
            have hd : (s.removePendingHttpResponse id r).1.pendingHttpResponses.get r = none := by
              simp [removePendingHttpResponse, hr]
            exact (later_discount x id).gone r
              (Nat.lt_of_lt_of_le (hso.pending r p hr).1 (later_remove id r).next) hd
          rw [hm]
          refine ⟨?_, fun n hn => ?_, fun n hn => ?_⟩
          · rw [List.map_append, List.nodup_append]
            refine ⟨h.nodup, by simp, fun a ha b hb => ?_⟩
            obtain ⟨n, hn, rfl⟩ := List.mem_map.mp ha
            simp only [List.map_cons, List.map_nil, List.mem_singleton] at hb
            rw [hb]
            exact hnew n hn
          · rcases List.mem_append.mp hn with hn | hn
            · exact ht.gone n hn
            · obtain rfl := List.mem_singleton.mp hn
              exact ⟨Nat.lt_of_lt_of_le (hso.pending r p hr).1 (later_step hs).next, hgone⟩
          · rcases List.mem_append.mp hn with hn | hn
            · exact ht.owner n hn
            · obtain rfl := List.mem_singleton.mp hn
              exact ⟨sv', hi', hx'.trans hx, hid'.trans hid⟩

end HostProcess

/-! ### Runs -/

open HostProcess

variable {s : HostProcess} {notes : List Resolved}

/-- **Responses go to their own requests**, in any number of executions and any order of steps, as
long as each step is proper: each request is resolved once at most, by a call of the execution that
owns its server which names that server; every queue lists the requests of its server that are not
resolved, every count is their number, and a server that is to be closed is finalised exactly when
there are none. -/
theorem responses_accounted
    (r : Reach (recorded HostProcess.step) (fun p e => p.1.Proper e) (init, []) (s, notes)) :
    s.Accounted ∧ (notes.map (·.requestId)).Nodup ∧
      ∀ n ∈ notes, ∃ sv, s.servers[n.server]? = some sv ∧ sv.execution = n.execution ∧
        sv.serverId = n.serverId := by
  have h : s.Sound ∧ s.Settled notes := by
    refine r.invariant (I := fun p => p.1.Sound ∧ p.1.Settled p.2) ?_ ?_
    · exact ⟨.init, List.nodup_nil, fun _ h => (nomatch h), fun _ h => (nomatch h)⟩
    · rintro ⟨s, notes⟩ e p ⟨hso, hse⟩ hp h
      obtain ⟨⟨t, more⟩, hs, rfl⟩ := recorded_eq_some.mp h
      exact ⟨hso.step hp hs, hse.step hso hp hs⟩
  exact ⟨h.1.toAccounted, h.2.nodup, h.2.owner⟩

/-- Two executions with a server each; a request on the first is answered by its guest while the
server is being closed. -/
theorem responses_accounted_two :
    ∃ (s : HostProcess) (notes : List Resolved),
      Reach (recorded HostProcess.step) (fun p e => p.1.Proper e) (init, []) (s, notes) ∧
      notes = [⟨1, 0, 1, 1⟩] ∧ s.Accounted := by
  let s₁ := init.listen 1 1
  let s₂ := s₁.listen 2 2
  let s₃ := s₂.request 0 ⟨1, 1, 0, false, false⟩
  let s₄ := s₃.close 1 1
  have r : Reach (recorded HostProcess.step) (fun p e => p.1.Proper e) (init, [])
      ((s₄.respond 1 1 1).1, [⟨1, 0, 1, 1⟩]) := by
    refine .next (t := (s₄, [])) (a := .respond 1 1 1) ?_ ?_ rfl
    · refine .next (t := (s₃, [])) (a := .close 1 1) ?_ trivial rfl
      refine .next (t := (s₂, [])) (a := .request 0) ?_ ?_ rfl
      · refine .next (t := (s₁, [])) (a := .listen 2 2) ?_ ⟨rfl, rfl⟩ rfl
        exact .next (a := .listen 1 1) .start ⟨rfl, rfl⟩ rfl
      · rintro sv hsv
        cases hsv
        refine ⟨rfl, fun x hx => ?_⟩
        simp [s₂, s₁, HostProcess.listen, HostProcess.init, hx]
    · exact ⟨_, rfl, rfl, rfl⟩
  exact ⟨_, _, r, rfl, (responses_accounted r).1⟩

/-- A guest answers a request of another execution under an id of its own: the request is resolved,
and the server that it came in on still counts it, and waits for it when it is to be closed. -/
theorem request_resolved_by_other_execution :
    ∃ (s : HostProcess) (notes : List Resolved) (sv : Server),
      Reach (recorded HostProcess.step) Any (init, []) (s, notes) ∧
      notes = [⟨1, 0, 2, 7⟩] ∧ s.servers[0]? = some sv ∧ sv.execution = 1 ∧ sv.serverId = 1 ∧
      sv.pendingRequests = 1 ∧ s.unresolved 0 = [] ∧ s.queue 1 = [1] ∧
      sv.closeRequested = true ∧ sv.finalised = false := by
  let s₃ := (init.listen 1 1).request 0 ⟨1, 1, 0, false, false⟩
  let s₄ := (s₃.respond 2 7 1).1
  have r : Reach (recorded HostProcess.step) Any (init, [])
      (s₄.close 1 1, [⟨1, 0, 2, 7⟩]) := by
    refine .next (t := (s₄, _)) (a := .close 1 1) ?_ trivial rfl
    refine .next (t := (s₃, [])) (a := .respond 2 7 1) ?_ trivial rfl
    refine .next (t := (init.listen 1 1, [])) (a := .request 0) ?_ trivial rfl
    exact .next (a := .listen 1 1) .start trivial rfl
  exact ⟨_, _, _, r, rfl, rfl, rfl, rfl, rfl, rfl, rfl, rfl, rfl⟩

end Http.Responses
