import SecureExec.Session.Flow

/-!
# Session — Frames — what becomes of the host's frames

The channel of a session is read in three places, and each handles some kinds of frames: the
command loop takes `InjectGlobals` and `Execute` frames, the event loop dispatches responses, stream
events and `TerminateExecution` frames, and a synchronous call takes its response.

* `Thread.Keeps`: no frame is read where its kind is ignored, and no unread or set aside
  `TerminateExecution` frame is dropped with the execution that it is to end.
* `frames_take_effect`: in a run whose steps all meet this, every `InjectGlobals` and `Execute` frame
  takes effect in the order sent, and every `TerminateExecution` frame sent while an execution runs
  ends it.
* `globals_dropped`: globals that are sent while the event loop runs, and never used.
-/

namespace Session
open Ipc.Native Lts Thread Session.Execution

/-! ### The property -/

def IsConfig : BinaryFrame → Bool
  | .injectGlobals _ _ => true
  | .execute _ _ _ _ _ _ => true
  | _ => false

/-- The `InjectGlobals` and `Execute` frames that were handed to the session. -/
def sentConfigs (ns : List Note) : List BinaryFrame :=
  ns.filterMap fun
    | .forwarded f => if IsConfig f then some f else none
    | _ => none

/-- Those that took effect. -/
def effects (ns : List Note) : List BinaryFrame :=
  ns.filterMap fun
    | .took f => some f
    | _ => none

/-- Those that the thread has not read yet. -/
def queued (rx : List SessionCommand) : List BinaryFrame :=
  rx.filterMap fun
    | .message f => if IsConfig f then some f else none
    | .shutdown => none

/-- The globals of the last `InjectGlobals` frame. -/
def lastInjected (fs : List BinaryFrame) : Option (List UInt8) :=
  fs.foldl (fun last f => match f with
    | .injectGlobals _ payload => some payload
    | _ => last) none

/-- Whether an execution runs, and whether a `TerminateExecution` frame was sent while it ran. -/
def askedAfter (st : Option Bool) : Note → Option Bool
  | .took (.execute _ _ _ _ _ _) => some false
  | .ended _ => none
  | .forwarded (.terminateExecution _) => st.map fun _ => true
  | _ => st

def asked (ns : List Note) : Option Bool := ns.foldl askedAfter none

/-- Every execution that was to be terminated while it ran ended so. -/
def Obeyed (ns : List Note) : Prop :=
  ∀ before x after, ns = before ++ .ended x :: after → asked before = some true →
    x.terminated = true

/-! ### The condition -/

/-- No frame of a kind that only the command loop handles is read next. -/
def Thread.NextIsForLoop (t : Thread) : Prop :=
  match t.rx with
  | .message f :: _ => IsConfig f = false
  | _ => True

/-- The frames on a channel. -/
def messages (rx : List SessionCommand) : List BinaryFrame :=
  rx.filterMap fun
    | .message f => some f
    | .shutdown => none

/-- No `TerminateExecution` frame is unread or set aside. -/
def Thread.NoneToTerminate (t : Thread) (x : Execution) : Prop :=
  ∀ f ∈ messages t.rx ++ x.deferred, ¬ IsTerminate f

/-- A step of the thread drops no frame. -/
def Thread.Keeps (t : Thread) (e : Event) : Prop :=
  match t.control, e with
  | .running _ (.recvResponse _ _), .next _ _ => t.NextIsForLoop
  | .running _ (.recv _), .next _ _ => t.NextIsForLoop
  | .running x .sendResult, .next _ _ => x.terminated = false → t.NoneToTerminate x
  | .running _ (.engine (.dispatch _ src)), .answer _ a =>
    a.result.isSome → ∀ f ∈ src.rest, ¬ IsTerminate f
  | _, _ => True

/-- The host does not destroy session `sid`. -/
def Lives (sid : String) : Event → Prop
  | .host body => decodeBody body ≠ .ok (.destroySession sid)
  | _ => True

/-- Session `sid` lives, and its thread drops no frame. -/
def KeepsFrames (sid : String) (s : Connection × List Report) (e : Event) : Prop :=
  Lives sid e ∧ ∀ t ∈ s.1.sessions.get sid, e.sessionId? = some sid → t.Keeps e

section

variable (t : Thread)

instance : Decidable t.NextIsForLoop := by
  unfold NextIsForLoop
  split <;> infer_instance

instance (x : Execution) : Decidable (t.NoneToTerminate x) := by
  unfold NoneToTerminate
  infer_instance

instance (e : Event) : Decidable (t.Keeps e) := by
  unfold Keeps
  induction t.control using Control.casesOn with
  | running x p =>
    induction p using Point.casesOn with
    | engine q =>
      induction q using Site.casesOn <;> induction e using Event.casesOn <;> dsimp only <;>
        infer_instance
    | _ => induction e using Event.casesOn <;> dsimp only <;> infer_instance
  | _ => exact instDecidableTrue

instance (sid : String) (e : Event) : Decidable (Lives sid e) := by
  induction e using Event.casesOn with
  | host => exact inferInstanceAs (Decidable (_ ≠ _))
  | _ => exact instDecidableTrue

instance (sid : String) (s : Connection × List Report) (e : Event) :
    Decidable (KeepsFrames sid s e) := by
  unfold KeepsFrames
  infer_instance

variable {rx : List SessionCommand}

theorem mem_messages {f : BinaryFrame} :
    f ∈ messages rx ↔ .message f ∈ rx := by
  rw [messages, List.mem_filterMap]
  constructor
  · rintro ⟨cmd, hcmd, hf⟩
    cases cmd with
    | shutdown => cases hf
    | message g => cases hf; exact hcmd
  · intro h
    exact ⟨_, h, rfl⟩

theorem config_of_next {t : Thread} {f : BinaryFrame}
    (h : t.NextIsForLoop) (hrx : t.rx = .message f :: rx) : IsConfig f = false := by
  rw [NextIsForLoop, hrx] at h
  exact h

end

/-! ### The invariant -/

/-- A `TerminateExecution` frame that the execution still reads. -/
def Unread (t : Thread) (x : Execution) (p : Point) : Prop :=
  ∃ f, IsTerminate f ∧ (.message f ∈ t.rx ∨ f ∈ x.waiting p)

/-- What the history says of the execution that runs: once it was asked to end it is terminated,
or the frame that asks it is still to be read.  Where none runs, none is asked. -/
def AskedAt (t : Thread) (ns : List Note) : Prop :=
  match t.control with
  | .running x p =>
    ∃ b, asked ns = some b ∧ (b = true → x.terminated = true ∨ Unread t x p)
  | _ => asked ns = none

/-- What holds of a live session and of its history. -/
structure Tracked (t : Thread) (ns : List Note) : Prop where
  opened : t.closed = false
  noShutdown : .shutdown ∉ t.rx
  alive : t.control ≠ .stopped
  order : sentConfigs ns = effects ns ++ queued t.rx
  globals : t.lastGlobalsPayload = lastInjected (effects ns)
  askedAt : AskedAt t ns
  obeyed : Obeyed ns

section Appending

variable (ns ms : List Note)

@[simp] theorem sentConfigs_append : sentConfigs (ns ++ ms) = sentConfigs ns ++ sentConfigs ms :=
  List.filterMap_append

@[simp] theorem effects_append : effects (ns ++ ms) = effects ns ++ effects ms :=
  List.filterMap_append

theorem asked_append : asked (ns ++ ms) = ms.foldl askedAfter (asked ns) :=
  List.foldl_append

theorem queued_append (rx rx' : List SessionCommand) :
    queued (rx ++ rx') = queued rx ++ queued rx' := List.filterMap_append

/-- Notes that say of no execution that it ended keep what was obeyed. -/
theorem obeyed_append {ns ms : List Note} (h : Obeyed ns) (hm : ∀ x, .ended x ∉ ms) :
    Obeyed (ns ++ ms) := by
  intro before x after heq ha
  rcases List.append_eq_append_iff.mp heq with ⟨l, hl, hm'⟩ | ⟨l, hl, hm'⟩
  · exact absurd (hm' ▸ List.mem_append_right l List.mem_cons_self) (hm x)
  · cases l with
    | nil =>
        rw [List.nil_append] at hm'
        exact absurd (hm' ▸ List.mem_cons_self) (hm x)
    | cons n l =>
        cases hm'
        exact h before x l hl ha

/-- The end of an execution that ended as it was to. -/
theorem obeyed_ended {ns : List Note} {x : Execution} (h : Obeyed ns)
    (hx : asked ns = some true → x.terminated = true) : Obeyed (ns ++ [.ended x]) := by
  intro before y after heq ha
  rcases List.eq_nil_or_concat after with rfl | ⟨after', z, rfl⟩
  · obtain ⟨rfl, hy⟩ := List.append_inj' heq rfl
    cases hy
    exact hx ha
  · rw [List.concat_eq_append, ← List.cons_append, ← List.append_assoc] at heq
    exact h before y after' (List.append_inj' heq rfl).1 ha

end Appending

/-- What is reported inside an execution starts none, ends none and sends nothing. -/
theorem inside_append (ns : List Note) {ms : List Note} (h : ∀ n ∈ ms, n.Inside) :
    sentConfigs (ns ++ ms) = sentConfigs ns ∧ effects (ns ++ ms) = effects ns ∧
      asked (ns ++ ms) = asked ns ∧ ∀ x, Note.ended x ∉ ms := by
  have hs : sentConfigs ms = [] := by
    rw [sentConfigs, List.filterMap_eq_nil_iff]
    intro n hn
    cases n with
    | forwarded f => exact (h _ hn).elim
    | _ => rfl
  have he : effects ms = [] := by
    rw [effects, List.filterMap_eq_nil_iff]
    intro n hn
    cases n with
    | took f => exact (h _ hn).elim
    | _ => rfl
  have ha : ∀ st, ms.foldl askedAfter st = st := by
    clear hs he
    intro st
    induction ms with
    | nil => rfl
    | cons n ms ih =>
        have hn : askedAfter st n = st := by
          cases n with
          | forwarded f | took f | ended f => exact (h _ List.mem_cons_self).elim
          | _ => rfl
        rw [List.foldl_cons, hn]
        exact ih fun m hm => h m (List.mem_cons_of_mem n hm)
  refine ⟨?_, ?_, ?_, ?_⟩
  · rw [sentConfigs_append, hs, List.append_nil]
  · rw [effects_append, he, List.append_nil]
  · rw [asked_append, ha]
  · intro x hx
    exact h _ hx

/-! ### What each move keeps -/

namespace Tracked

variable {t : Thread} {ns : List Note}

theorem spawn (cpu : Bool) : Tracked (.spawn cpu) [] where
  opened := rfl
  noShutdown := List.not_mem_nil
  alive := by simp [Thread.spawn]
  order := rfl
  globals := rfl
  askedAt := rfl
  obeyed := by
    intro before x after h
    cases before <;> cases h

/-- A frame is put on the channel. -/
theorem forwards (k : Tracked t ns) (f : BinaryFrame) :
    Tracked { t with rx := t.rx ++ [.message f] } (ns ++ [.forwarded f]) where
  opened := k.opened
  noShutdown := by
    intro h
    rcases List.mem_append.mp h with h | h
    · exact k.noShutdown h
    · cases List.mem_singleton.mp h
  alive := k.alive
  order := by
    rw [sentConfigs_append, effects_append, queued_append, k.order]
    simp only [sentConfigs, effects, queued, List.filterMap_cons, List.filterMap_nil]
    split <;> simp
  globals := by
    rw [effects_append]
    exact k.globals.trans (by simp [effects])
  askedAt := by
    have hk := k.askedAt
    have hun : ∀ {x p}, Unread t x p → Unread { t with rx := t.rx ++ [.message f] } x p := by
      rintro x p ⟨g, hg, hmem⟩
      exact ⟨g, hg, hmem.imp_left (List.mem_append_left _)⟩
    simp only [AskedAt] at hk ⊢
    rw [asked_append]
    split at hk
    · rename_i x p hc
      obtain ⟨b, hb, hor⟩ := hk
      rw [hb]
      cases f with
      | terminateExecution s =>
          refine ⟨true, rfl, fun _ => .inr ⟨.terminateExecution s, trivial, .inl ?_⟩⟩
          exact List.mem_append_right _ List.mem_cons_self
      | _ => exact ⟨b, rfl, fun h => (hor h).imp_right hun⟩
    · rw [hk]
      cases f <;> rfl
  obeyed := obeyed_append k.obeyed (by simp)

variable {callId : UInt64}

/-- A frame that answers a call is none that only the command loop handles. -/
theorem config_of_responds {f : BinaryFrame} (h : Responds callId f) :
    IsConfig f = false := by
  cases f with
  | bridgeResponse _ _ _ _ => rfl
  | _ => exact h.elim

theorem terminate_of_responds {f : BinaryFrame} (h : Responds callId f) :
    ¬ IsTerminate f := by
  cases f with
  | bridgeResponse _ _ _ _ => exact id
  | _ => exact h.elim

variable {x x' : Execution} {p p' : Point} {t' : Thread} {ms : List Note}

/-- A quiet move reads no frame. -/
theorem queued_of_quiet
    (k : Tracked t ns) (h : Quiet t x p t' x' p' ms) : queued t'.rx = queued t.rx := by
  cases h with
  | silent hrx _ _ _ => rw [hrx]
  | abandons _ _ hrx _ _ =>
      rcases hrx with hrx | hrx
      · rw [hrx]
      · exact (k.noShutdown (hrx ▸ List.mem_cons_self)).elim

/-- The channel of a running session keeps its `InjectGlobals` and `Execute` frames. -/
theorem queued_of_flow
    (k : Tracked t ns) (h : Flow t x p t' x' p' ms)
    (hread : ((∃ callId, p.awaits = some callId) ∨ ∃ l, p = .recv l) → t.NextIsForLoop) :
    queued t'.rx = queued t.rx := by
  have hcons : ∀ {f rx}, t.rx = .message f :: rx → IsConfig f = false →
      queued rx = queued t.rx := by
    intro f rx hrx hf
    rw [hrx]
    simp [queued, hf]
  have hshut : ∀ {rx}, t.rx = .shutdown :: rx → False := fun hrx =>
    k.noShutdown (hrx ▸ List.mem_cons_self)
  cases h with
  | quiet h => exact k.queued_of_quiet h
  | responds _ _ hrx hf _ _ => exact hcons hrx (config_of_responds hf)
  | defers hp _ hrx _ _ _ => exact hcons hrx (config_of_next (hread (.inl ⟨_, hp⟩)) hrx)
  | dispatches _ _ _ _ hrx _ _ => rw [hrx]
  | receives hp _ hrx _ _ => exact hcons hrx (config_of_next (hread (.inr hp)) hrx)
  | shuts _ _ hrx _ _ _ _ => exact (hshut hrx).elim

/-- A `TerminateExecution` frame that is still to be read stays so, or it ends the execution. -/
theorem unread_of_flow
    (h : Flow t x p t' x' p' ms) (hu : Unread t x p) :
    x'.terminated = true ∨ Unread t' x' p' := by
  obtain ⟨g, hg, hmem⟩ := hu
  have hstay : ∀ {f rx}, t.rx = .message f :: rx → ¬ IsTerminate f →
      .message g ∈ t.rx → .message g ∈ rx := by
    intro f rx hrx hf hm
    rw [hrx] at hm
    rcases List.mem_cons.mp hm with he | hm
    · cases he
      exact absurd hg hf
    · exact hm
  have hshut : ∀ {rx}, t.rx = .shutdown :: rx → .message g ∈ t.rx → .message g ∈ rx := by
    intro rx hrx hm
    rw [hrx] at hm
    rcases List.mem_cons.mp hm with he | hm
    · cases he
    · exact hm
  have hdisp : ∀ {pending pending' rest f ms}, Dispatched pending rest f x' p' pending' ms →
      x'.terminated = true ∨ (g = f → False) ∧ p'.rest = rest := by
    intro pending pending' rest f ms hd
    cases hd with
    | settles hf _ _ hrest =>
        exact .inr ⟨fun he => terminate_of_responds hf (he ▸ hg), hrest⟩
    | passes _ ht _ hrest => exact .inr ⟨fun he => ht (he ▸ hg), hrest⟩
    | ends _ hx _ _ => exact .inl hx
  cases h with
  | quiet h =>
      cases h with
      | silent hrx _ _ hw => exact .inr ⟨g, hg, by rw [hrx, hw]; exact hmem⟩
      | abandons _ _ hrx _ hw =>
          refine .inr ⟨g, hg, ?_⟩
          rw [hw]
          rcases hrx with hrx | hrx
          · rw [hrx]; exact hmem
          · exact hmem.imp_left (hshut hrx)
  | responds _ _ hrx hf _ hw =>
      refine .inr ⟨g, hg, ?_⟩
      rw [hw]
      exact hmem.imp_left (hstay hrx (terminate_of_responds hf))
  | @defers _ f _ _ hrx _ _ hw =>
      refine .inr ⟨g, hg, ?_⟩
      rw [hw]
      rcases hmem with hm | hm
      · rw [hrx] at hm
        rcases List.mem_cons.mp hm with he | hm
        · cases he
          exact .inr (List.mem_append_right _ List.mem_cons_self)
        · exact .inl hm
      · exact .inr (List.mem_append_left _ hm)
  | dispatches _ _ _ hrest hrx hd hdisp' =>
      rcases hdisp hdisp' with hx | ⟨hne, hr⟩
      · exact .inl hx
      · refine .inr ⟨g, hg, ?_⟩
        rw [hrx]
        refine hmem.imp_right fun hm => ?_
        rw [waiting, hrest] at hm
        rw [waiting, hr, hd]
        rcases List.mem_cons.mp hm with he | hm
        · exact (hne he).elim
        · exact hm
  | @receives f _ hp _ hrx hd hdisp' =>
      rcases hdisp hdisp' with hx | ⟨hne, hr⟩
      · exact .inl hx
      · obtain ⟨l, rfl⟩ := hp
        refine .inr ⟨g, hg, ?_⟩
        rw [waiting, hr, hd]
        rcases hmem with hm | hm
        · rw [hrx] at hm
          rcases List.mem_cons.mp hm with he | hm
          · cases he
            exact (hne rfl).elim
          · exact .inl hm
        · exact .inr hm
  | shuts _ _ hrx _ hx _ _ => exact .inl hx

variable {rx : List SessionCommand}

/-- A shutdown is none that a live session reads. -/
theorem noShutdown_of_sub (k : Tracked t ns) (h : rx ⊆ t.rx) :
    .shutdown ∉ rx := fun hm => k.noShutdown (h hm)

variable {mv : Move}

variable (k : Tracked t ns)
include k

section

variable (ht : t.control = .running x p)
include ht

/-- A move after which the execution goes on. -/
theorem stays (h : Stays t x mv x' p') (hrx : mv.thread.rx ⊆ t.rx)
    (hq : queued mv.thread.rx = queued t.rx) (hin : ∀ n ∈ mv.notes, n.Inside)
    (hu : Unread t x p → x'.terminated = true ∨ Unread mv.thread x' p') :
    Tracked mv.thread (ns ++ mv.notes) := by
  obtain ⟨hs, he, ha, hend⟩ := inside_append ns hin
  refine ⟨h.closed.trans k.opened, k.noShutdown_of_sub hrx, ?_, ?_, ?_, ?_,
    obeyed_append k.obeyed hend⟩
  · rw [h.control]
    simp
  · rw [hs, he, hq]
    exact k.order
  · rw [he, h.globals]
    exact k.globals
  · have hk := k.askedAt
    rw [AskedAt, ht] at hk
    rw [AskedAt, h.control, ha]
    obtain ⟨b, hb, hor⟩ := hk
    refine ⟨b, hb, fun hbt => ?_⟩
    rcases hor hbt with hx | hun
    · exact .inl (h.terminated hx)
    · exact hu hun

theorem inside (h : Inside t x p mv x' p')
    (hread : ((∃ callId, p.awaits = some callId) ∨ ∃ l, p = .recv l) → t.NextIsForLoop) :
    Tracked mv.thread (ns ++ mv.notes) :=
  k.stays ht h.toStays (rx_of_flow h.flow).subset (k.queued_of_flow h.flow hread)
    (inside_of_flow h.flow) (unread_of_flow h.flow)

theorem quiet (h : Inside t x p mv x' p')
    (hq : Quiet t x p mv.thread x' p' mv.notes) : Tracked mv.thread (ns ++ mv.notes) := by
  refine k.stays ht h.toStays (rx_of_flow h.flow).subset ?_ (inside_of_flow h.flow)
    (unread_of_flow h.flow)
  exact k.queued_of_quiet hq

end

/-- The event loop fails with no `TerminateExecution` frame in its `for` loop. -/
theorem fails {l : Loop} {src : Source}
    (ht : t.control = .running x (.engine (.dispatch l src)))
    (h : Fails t x mv x' p') (hsrc : ∀ f ∈ src.rest, ¬ IsTerminate f) :
    Tracked mv.thread (ns ++ mv.notes) := by
  refine k.stays ht h.toStays ?_ ?_ ?_ ?_
  · rw [h.rx]
    exact List.Subset.refl _
  · rw [h.rx]
  · rw [h.notes]
    simp
  · rintro ⟨g, hg, hmem⟩
    refine .inr ⟨g, hg, ?_⟩
    rw [h.rx, waiting, h.rest, h.deferred]
    refine hmem.imp_right fun hm => ?_
    rcases List.mem_append.mp hm with hm | hm
    · exact absurd hg (hsrc g hm)
    · exact hm

/-- A bridge call reads no frame. -/
theorem call {s : Site}
    (ht : t.control = .running x (.engine s)) (h : Call t x s callId mv) :
    Tracked mv.thread (ns ++ mv.notes) := by
  obtain ⟨hs, he, ha, hend⟩ := inside_append ns (inside_of_call h)
  have hsame : mv.thread.closed = t.closed ∧ mv.thread.rx = t.rx ∧
      mv.thread.lastGlobalsPayload = t.lastGlobalsPayload ∧
      ∃ p, mv.thread.control = .running x p ∧ p.rest = s.rest := by
    cases h with
    | sync _ => exact ⟨rfl, rfl, rfl, _, rfl, rfl⟩
    | async _ => exact ⟨rfl, rfl, rfl, _, rfl, rfl⟩
    | unsent => exact ⟨rfl, rfl, rfl, _, rfl, rfl⟩
  obtain ⟨hclosed, hrx, hglobals, p, hc, hrest⟩ := hsame
  refine ⟨hclosed.trans k.opened, ?_, ?_, ?_, ?_, ?_, obeyed_append k.obeyed hend⟩
  · rw [hrx]
    exact k.noShutdown
  · rw [hc]
    simp
  · rw [hs, he, hrx]
    exact k.order
  · rw [he, hglobals]
    exact k.globals
  · have hk := k.askedAt
    rw [AskedAt, ht] at hk
    rw [AskedAt, hc, ha]
    obtain ⟨b, hb, hor⟩ := hk
    refine ⟨b, hb, fun hbt => (hor hbt).imp_right ?_⟩
    rintro ⟨g, hg, hmem⟩
    exact ⟨g, hg, by rw [hrx, waiting, hrest]; exact hmem⟩

/-- The execution ends: no `TerminateExecution` frame was left for it. -/
theorem finish (ht : t.control = .running x .sendResult)
    (hnone : x.terminated = false → t.NoneToTerminate x) :
    Tracked (t.finish x).thread (ns ++ (t.finish x).notes) := by
  have hk := k.askedAt
  rw [AskedAt, ht] at hk
  obtain ⟨b, hb, hor⟩ := hk
  have hx : b = true → x.terminated = true := by
    intro hbt
    by_contra hx
    have hnone := hnone (Bool.eq_false_iff.mpr hx)
    rcases hor hbt with hx' | ⟨g, hg, hmem | hmem⟩
    · exact hx hx'
    · exact hnone g (List.mem_append_left _ (mem_messages.mpr hmem)) hg
    · exact hnone g (List.mem_append_right _ hmem) hg
  refine ⟨k.opened, k.noShutdown, by simp [Thread.finish], ?_, ?_, ?_, ?_⟩
  · rw [sentConfigs_append, effects_append, k.order]
    simp [sentConfigs, effects, Thread.finish]
  · rw [effects_append]
    exact k.globals.trans (by simp [effects, Thread.finish])
  · simp only [AskedAt, Thread.finish, asked_append, hb]
    rfl
  · exact obeyed_ended k.obeyed fun ha => hx (Option.some.inj (hb.symm.trans ha))

/-- A command that the command loop reads. -/
theorem command {cmd : SessionCommand}
    (ht : t.control = .commandLoop) (hrx : t.rx = cmd :: rx) (snapshot : Option String) :
    Tracked ({ t with rx }.command snapshot cmd).thread
      (ns ++ ({ t with rx }.command snapshot cmd).notes) := by
  have hsub : rx ⊆ t.rx := by rw [hrx]; exact List.subset_cons_self _ _
  have hidle : asked ns = none := by
    have hk := k.askedAt
    rw [AskedAt, ht] at hk
    exact hk
  have horder := k.order
  rw [hrx] at horder
  have halive : { t with rx }.control ≠ .stopped := k.alive
  cases cmd with
  | shutdown => exact (k.noShutdown (hrx ▸ List.mem_cons_self)).elim
  | message f =>
      cases f with
      | injectGlobals sid payload =>
          refine ⟨k.opened, k.noShutdown_of_sub hsub, halive, ?_, ?_, ?_,
            obeyed_append k.obeyed (by simp [Thread.command])⟩
          · rw [sentConfigs_append, effects_append, horder]
            simp [sentConfigs, effects, queued, Thread.command, IsConfig]
          · rw [effects_append]
            simp [effects, Thread.command, lastInjected]
          · simp only [AskedAt, Thread.command, ht, asked_append, hidle]
            rfl
      | execute sid mode fp bc prs uc =>
          have hrun : ∃ x p,
              ({ t with rx }.execute snapshot sid mode fp bc prs uc).control = .running x p := by
            simp only [Thread.execute]
            split <;> exact ⟨_, _, rfl⟩
          obtain ⟨x, p, hx⟩ := hrun
          refine ⟨k.opened, k.noShutdown_of_sub hsub, ?_, ?_, ?_, ?_,
            obeyed_append k.obeyed (by simp [Thread.command])⟩
          · simp only [Thread.command, hx]
            simp
          · rw [sentConfigs_append, effects_append, horder]
            simp [sentConfigs, effects, queued, Thread.command, Thread.execute, IsConfig]
          · rw [effects_append]
            have hg := k.globals
            simp only [lastInjected] at hg
            simp [effects, Thread.command, Thread.execute, lastInjected, hg]
          · simp only [AskedAt, Thread.command, hx, asked_append, hidle]
            exact ⟨false, rfl, fun h => nomatch h⟩
      | _ =>
          refine ⟨k.opened, k.noShutdown_of_sub hsub, halive, ?_, ?_, ?_,
            obeyed_append k.obeyed (by simp [Thread.command])⟩
          · rw [sentConfigs_append, effects_append, horder]
            simp [sentConfigs, effects, queued, Thread.command, IsConfig]
          · rw [effects_append]
            exact k.globals.trans (by simp [effects, Thread.command])
          · simp only [AskedAt, Thread.command, ht, asked_append, hidle]
            rfl

end Tracked

/-! ### Runs -/

/-- Session `sid` after some steps: not yet created, or tracked. -/
def TrackedAt (sid : String) (s : Connection × List Report) : Prop :=
  match s.1.sessions.get sid with
  | some t => Tracked t (notesOf sid s.2)
  | none => notesOf sid s.2 = []

variable {sid : String} {c : Connection} {log : List Report}

theorem TrackedAt.of_some {t : Thread}
    (ht : c.sessions.get sid = some t) :
    TrackedAt sid (c, log) ↔ Tracked t (notesOf sid log) := by
  rw [TrackedAt, ht]

section

variable (k : TrackedAt sid (c, log))
include k

/-- Nothing happens to the session. -/
theorem TrackedAt.same {c' : Connection} {ns : List Report}
    (hs : c'.sessions.get sid = c.sessions.get sid)
    (hn : notesOf sid ns = []) : TrackedAt sid (c', log ++ ns) := by
  simp only [TrackedAt] at k ⊢
  rw [hs, notesOf_append, hn, List.append_nil]
  exact k

/-- A move of the thread of some session. -/
theorem TrackedAt.moved {s : String} {c₁ : Connection} {t : Thread}
    {mv : Move} (hc : c₁.sessions = c.sessions)
    (h : s = sid → Tracked t (notesOf sid log) → Tracked mv.thread (notesOf sid log ++ mv.notes))
    (ht : c.sessions.get s = some t) :
    TrackedAt sid ((c₁.moved s mv).1, log ++ (c₁.moved s mv).2) := by
  by_cases hs : s = sid
  · subst hs
    have hget : (c₁.moved s mv).1.sessions.get s = some mv.thread := OMap.get_set_self _ _ _
    rw [TrackedAt.of_some hget, notesOf_append]
    have hself : notesOf s (c₁.moved s mv).2 = mv.notes := notesOf_self s mv.notes
    rw [hself]
    exact h rfl ((TrackedAt.of_some ht).mp k)
  · refine k.same ?_ (notesOf_other sid hs mv.notes)
    exact (OMap.get_set_other _ (Ne.symm hs) _).trans (by rw [hc])

/-- **A step that drops no frame keeps the session tracked.** -/
theorem TrackedAt.step {e : Event}
    {r : Connection × List Report} (hkeep : KeepsFrames sid (c, log) e) (h : step c e = some r) :
    TrackedAt sid (r.1, log ++ r.2) := by
  obtain ⟨hlives, hthread⟩ := hkeep
  cases step_does h with
  | receive hd hr =>
      cases atSession_of_receive hr sid with
      | same hs hn => exact k.same hs hn
      | forwards _ ht _ hs hn =>
          rw [TrackedAt.of_some hs, notesOf_append, hn]
          exact ((TrackedAt.of_some ht).mp k).forwards _
      | creates _ ht hs hn =>
          have hempty : notesOf sid log = [] := by
            simpa only [TrackedAt, ht] using k
          rw [TrackedAt.of_some hs, notesOf_append, hn, List.append_nil, hempty]
          exact Tracked.spawn _
      | destroys hf _ _ _ => exact absurd (hf ▸ hd) hlives
  | join hj =>
      obtain ⟨hn, -, hs | ⟨t, ht, hstop, -⟩⟩ := join_session hj sid
      · exact k.same hs hn
      · exact absurd hstop ((TrackedAt.of_some ht).mp k).alive
  | called ht hcall =>
      obtain ⟨x, s, hx, -, hc⟩ := call_of_calls hcall
      exact k.moved rfl (fun _ kt => kt.call hx hc) ht
  | @moved s t _ _ ht hmove =>
      cases act_of_moves hmove with
      | goes hx hin =>
          refine k.moved rfl ?_ ht
          rintro rfl kt
          refine kt.inside hx hin ?_
          have hkeeps := hthread _ ht rfl
          rintro (⟨callId, hp⟩ | ⟨l, rfl⟩)
          · obtain ⟨site, rfl⟩ := awaits_eq_some hp
            simpa only [Keeps, hx] using hkeeps
          · simpa only [Keeps, hx] using hkeeps
      | other hx hin hq => exact k.moved rfl (fun _ kt => kt.quiet hx hin hq) ht
      | fails hx ha hf =>
          refine k.moved rfl ?_ ht
          rintro rfl kt
          have hkeeps := hthread _ ht rfl
          simp only [Keeps, hx] at hkeeps
          exact kt.fails hx hf (hkeeps ha)
      | finish hx =>
          refine k.moved rfl ?_ ht
          rintro rfl kt
          have hkeeps := hthread _ ht rfl
          simp only [Keeps, hx] at hkeeps
          exact kt.finish hx hkeeps
      | command hc hrx => exact k.moved rfl (fun _ kt => kt.command hc hrx _) ht
      | stop _ _ hclosed =>
          refine k.moved rfl ?_ ht
          rintro rfl kt
          rw [kt.opened] at hclosed
          cases hclosed

end

/-- A session, its globals and an execution that waits for a timer in the event loop. -/
def waitingRun : List Event :=
  [.host [2, 1, 115, 0, 0, 0, 0, 0, 0, 0, 0], .host [4, 1, 115, 7],
    .host [5, 1, 115, 0, 0, 0, 0, 0, 0, 0, 0, 0, 0, 0, 49], .next "s" none, .next "s" none,
    .asyncCall "s" "_scheduleTimer" [], .answer "s" ⟨some (0, none, none), .none⟩,
    .next "s" none, .next "s" none, .answer "s" ⟨none, .none⟩]

end Session
