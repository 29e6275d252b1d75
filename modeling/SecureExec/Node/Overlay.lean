import SecureExec.Node.HostTree

/-!
# Node — Overlay — the overlay writes nothing to the host

Every member of `ModuleAccessFileSystem` but `pwrite` leaves the host as it is, whatever the
configuration, the base file system and the host are.  A call that changes something is refused with
`EACCES` when one of the paths it changes is in the projection; else it is the call of the base file
system at normalised paths, or it fails (`call_settled`).  So in a run without `pwrite` into the
projection the host stays as it is (`overlay_never_writes`).

`overlay_pwrite`: `pwrite` resolves its path as a read does, and writes the file of the host.
-/

namespace ModuleAccess
open SecureExec Shared Prog Lts VirtualFileSystem
open Vfs (VirtualStat)

/-! ### Calls that change something -/

/-- The paths that a call is to change. -/
def operands : FsCall → List String
  | .writeFile path _ | .createDir path | .mkdir path _ | .removeFile path | .removeDir path
  | .chmod path _ | .chown path _ _ | .utimes path _ _ | .truncate path _ | .pwrite path _ _
  | .prepareOpenSync path _ => [normalizeOverlayPath path]
  | .symlink _ linkPath => [normalizeOverlayPath linkPath]
  | .rename oldPath newPath | .link oldPath newPath =>
    [normalizeOverlayPath oldPath, normalizeOverlayPath newPath]
  | _ => []

/-- The call that the base file system gets. -/
def forwarded : FsCall → FsCall
  | .writeFile path content => .writeFile (normalizeOverlayPath path) content
  | .createDir path => .createDir (normalizeOverlayPath path)
  | .mkdir path _ => .mkdir (normalizeOverlayPath path) none
  | .removeFile path => .removeFile (normalizeOverlayPath path)
  | .removeDir path => .removeDir (normalizeOverlayPath path)
  | .chmod path mode => .chmod (normalizeOverlayPath path) mode
  | .chown path uid gid => .chown (normalizeOverlayPath path) uid gid
  | .utimes path atime mtime => .utimes (normalizeOverlayPath path) atime mtime
  | .truncate path length => .truncate (normalizeOverlayPath path) length
  | .pwrite path offset data => .pwrite (normalizeOverlayPath path) offset data
  | .prepareOpenSync path flags => .prepareOpenSync (normalizeOverlayPath path) flags
  | .symlink target linkPath => .symlink target (normalizeOverlayPath linkPath)
  | .rename oldPath newPath => .rename (normalizeOverlayPath oldPath) (normalizeOverlayPath newPath)
  | .link oldPath newPath => .link (normalizeOverlayPath oldPath) (normalizeOverlayPath newPath)
  | c => c

def HostAccess.path : HostAccess → String
  | .readFile path | .readdir path | .stat path | .lstat path | .read path | .write path => path

namespace ModuleAccessFileSystem

variable {σ β α : Type} {m : ModuleAccessFileSystem σ β} {c : FsCall} {w w' : World σ β}

variable (m c) in
/-- The call throws `EACCES`, and does nothing else. -/
def Refuses : Prop :=
  ∃ op path, m.fileSystem.call c = throw (createEaccesError op (some path) none)

variable (m c) in
/-- The call is the one of the base file system. -/
def Forwards : Prop :=
  ∃ base, m.baseFileSystem = some base ∧ m.fileSystem.call c = onBase (base.call (forwarded c))

variable (m c) in
/-- The call throws, or reports that nothing was prepared, and does nothing else. -/
def Fails : Prop :=
  (∃ e, e.code ≠ "EACCES" ∧ m.fileSystem.call c = throw e) ∨
    m.fileSystem.call c = pure (.bool false)

variable (m c) in
/-- A `pwrite` into the projection. -/
def WritesProjection : Prop :=
  ∃ path offset data, c = .pwrite path offset data ∧
    m.isReadOnlyProjectionPath (normalizeOverlayPath path) = true

variable (m c) in
/-- A link from the projection to a path that is not in it. -/
def LinksProjection : Prop :=
  ∃ oldPath newPath, c = .link oldPath newPath ∧
    m.isReadOnlyProjectionPath (normalizeOverlayPath oldPath) = true ∧
    m.isReadOnlyProjectionPath (normalizeOverlayPath newPath) = false

variable (m c) in
/-- What becomes of a call that is to change something. -/
structure Settled : Prop where
  goes : m.Refuses c ∨ m.Forwards c ∨ m.Fails c
  refused : ¬ m.LinksProjection c → (∃ path ∈ operands c, m.isReadOnlyProjectionPath path = true) →
    m.Refuses c
  writable : (∀ path ∈ operands c, m.isReadOnlyProjectionPath path = false) →
    m.Forwards c ∨ m.Fails c

/-! ### Where a call goes -/

theorem enoent_ne : "ENOENT" ≠ "EACCES" := by decide

theorem nativeAddon_ne : MODULE_ACCESS_NATIVE_ADDON ≠ "EACCES" := by decide

variable {syscall virtualPath : String}

variable {member : VirtualFileSystem SystemError β → Prog SystemError β α}

theorem fallback_settled {f : α → FsReply}
    (hcall : m.fileSystem.call c = f <$> m.fallback syscall virtualPath member)
    (hbase : ∀ base, f <$> member base = call base (forwarded c)) :
    m.Forwards c ∨ m.Fails c := by
  rw [fallback] at hcall
  cases hb : m.baseFileSystem with
  | none =>
      rw [hb] at hcall
      exact .inr (.inl ⟨createEnoentError syscall virtualPath, enoent_ne, hcall⟩)
  | some base =>
      rw [hb] at hcall
      refine .inl ⟨base, hb, hcall.trans ?_⟩
      rw [← hbase base]
      exact map_zoom f (member base)

/-- A guarded call changes one path. -/
theorem guarded_settled {f : α → FsReply}
    (hcall : m.fileSystem.call c = f <$> m.guarded syscall virtualPath member)
    (hbase : ∀ base, f <$> member base = call base (forwarded c))
    (hop : operands c = [virtualPath]) : m.Settled c := by
  rw [guarded] at hcall
  cases hr : m.isReadOnlyProjectionPath virtualPath with
  | true =>
      rw [hr] at hcall
      have href : m.Refuses c := ⟨syscall, virtualPath, hcall⟩
      refine ⟨.inl href, fun _ _ => href, fun h => ?_⟩
      rw [h virtualPath (hop ▸ List.mem_singleton_self _)] at hr
      cases hr
  | false =>
      rw [hr] at hcall
      have hgo := fallback_settled hcall hbase
      refine ⟨.inr hgo, ?_, fun _ => hgo⟩
      rintro - ⟨path, hp, hpath⟩
      rw [hop, List.mem_singleton] at hp
      rw [hp, hr] at hpath
      cases hpath

theorem writable_iff : m.isReadOnlyProjectionPath virtualPath = false ↔
    startsWithPath virtualPath SANDBOX_NODE_MODULES_ROOT = false ∧
      m.isProjectedHostPath virtualPath = false := by
  simp only [isReadOnlyProjectionPath, decide_eq_false_iff_not, not_or, Bool.not_eq_true]

/-- No path of the host stands for a path out of the projection. -/
theorem candidate_of_writable (host : σ)
    (h : m.isReadOnlyProjectionPath virtualPath = false) :
    m.getOverlayHostPathCandidate host virtualPath = none := by
  rw [getOverlayHostPathCandidate, overlayHostPathFor, (writable_iff.mp h).1, (writable_iff.mp h).2]
  rfl

/-- Out of the projection a read goes to the base file system. -/
theorem layered_of_writable {access : String}
    (h : m.isReadOnlyProjectionPath virtualPath = false)
    (onHost : String → Prog SystemError (World σ β) α)
    (member : VirtualFileSystem SystemError β → Prog SystemError β α) :
    m.layered syscall access virtualPath onHost member =
      if isNativeAddonPath virtualPath then throw (nativeAddon virtualPath)
      else m.fallback syscall virtualPath member := by
  funext w
  have hresolve : m.resolveOverlayHostPath w.host virtualPath access =
      if isNativeAddonPath virtualPath then .error (nativeAddon virtualPath) else .ok none := by
    rw [resolveOverlayHostPath, candidate_of_writable w.host h]
    rfl
  change (m.layered syscall access virtualPath onHost member).exec w = _
  rw [layered, ModuleAccessFileSystem.resolved]
  simp only [exec_bind, exec_read, exec_lift, hresolve, (writable_iff.mp h).1]
  by_cases hn : isNativeAddonPath virtualPath = true
  · simp only [hn]
    rfl
  · simp only [hn]
    rfl

/-- What becomes of a `pwrite` out of the projection. -/
theorem pwrite_settled {path : String} {offset : Nat} {data : ByteArray8}
    (h : m.isReadOnlyProjectionPath (normalizeOverlayPath path) = false) :
    m.Settled (.pwrite path offset data) := by
  have hcall : m.fileSystem.call (.pwrite path offset data) =
      done (m.layered "open" "write" (normalizeOverlayPath path)
        (fun hostPath => m.writeHost hostPath offset data)
        (·.pwrite (normalizeOverlayPath path) offset data)) := rfl
  rw [layered_of_writable h] at hcall
  have hgo : m.Forwards (.pwrite path offset data) ∨ m.Fails (.pwrite path offset data) := by
    split at hcall
    · exact .inr (.inl ⟨nativeAddon _, nativeAddon_ne, hcall⟩)
    · exact fallback_settled hcall fun _ => rfl
  refine ⟨.inr hgo, ?_, fun _ => hgo⟩
  rintro - ⟨p, hp, hpath⟩
  rw [operands, List.mem_singleton] at hp
  rw [hp, h] at hpath
  cases hpath

variable (oldPath newPath : String)

theorem rename_settled : m.Settled (.rename oldPath newPath) := by
  have hcall : m.fileSystem.call (.rename oldPath newPath) =
      done (if m.isReadOnlyProjectionPath (normalizeOverlayPath oldPath) ∨
          m.isReadOnlyProjectionPath (normalizeOverlayPath newPath) then
        throw (createEaccesError "rename"
          (some (normalizeOverlayPath oldPath ++ " -> " ++ normalizeOverlayPath newPath)) none)
        else m.fallback "rename"
          (normalizeOverlayPath oldPath ++ " -> " ++ normalizeOverlayPath newPath)
          (·.rename (normalizeOverlayPath oldPath) (normalizeOverlayPath newPath))) := rfl
  by_cases hr : m.isReadOnlyProjectionPath (normalizeOverlayPath oldPath) = true ∨
      m.isReadOnlyProjectionPath (normalizeOverlayPath newPath) = true
  · rw [if_pos hr] at hcall
    have href : m.Refuses (.rename oldPath newPath) := ⟨_, _, hcall⟩
    refine ⟨.inl href, fun _ _ => href, fun h => ?_⟩
    rcases hr with hr | hr
    · cases hr.symm.trans (h _ List.mem_cons_self)
    · cases hr.symm.trans (h _ (List.mem_cons_of_mem _ (List.mem_singleton_self _)))
  · rw [if_neg hr] at hcall
    have hgo := fallback_settled hcall fun _ => rfl
    refine ⟨.inr hgo, ?_, fun _ => hgo⟩
    rintro - ⟨path, hp, hpath⟩
    rcases List.mem_pair.mp hp with rfl | rfl
    · exact (hr (.inl hpath)).elim
    · exact (hr (.inr hpath)).elim

/-- Only the new path of a link is looked at. -/
theorem link_settled : m.Settled (.link oldPath newPath) := by
  have hcall : m.fileSystem.call (.link oldPath newPath) =
      done (if m.isReadOnlyProjectionPath (normalizeOverlayPath newPath) then
        throw (createEaccesError "link" (some (normalizeOverlayPath newPath)) none)
        else m.fallback "link" (normalizeOverlayPath oldPath)
          (·.link (normalizeOverlayPath oldPath) (normalizeOverlayPath newPath))) := rfl
  cases hr : m.isReadOnlyProjectionPath (normalizeOverlayPath newPath) with
  | true =>
      rw [hr] at hcall
      have href : m.Refuses (.link oldPath newPath) := ⟨_, _, hcall⟩
      refine ⟨.inl href, fun _ _ => href, fun h => ?_⟩
      cases hr.symm.trans (h _ (List.mem_cons_of_mem _ (List.mem_singleton_self _)))
  | false =>
      rw [hr] at hcall
      have hgo := fallback_settled hcall fun _ => rfl
      refine ⟨.inr hgo, ?_, fun _ => hgo⟩
      rintro hl ⟨path, hp, hpath⟩
      rcases List.mem_pair.mp hp with rfl | rfl
      · exact (hl ⟨oldPath, newPath, rfl, hpath, hr⟩).elim
      · cases hr.symm.trans hpath

theorem prepareOpenSync_settled (path : String) (flags : Flags) :
    m.Settled (.prepareOpenSync path flags) := by
  have hcall : m.fileSystem.call (.prepareOpenSync path flags) =
      .bool <$> (if m.isReadOnlyProjectionPath (normalizeOverlayPath path) then
        throw (createEaccesError (if flags.has O_TRUNC then "truncate" else "write")
          (some (normalizeOverlayPath path)) none)
        else (m.baseFileSystem.bind (·.prepareOpenSync)).elim (pure false) fun prepareOpenSync =>
          onBase (prepareOpenSync (normalizeOverlayPath path) flags)) := by
    rw [call]
    dsimp only [fileSystem]
    cases m.baseFileSystem.bind (·.prepareOpenSync) <;> rfl
  cases hr : m.isReadOnlyProjectionPath (normalizeOverlayPath path) with
  | true =>
      rw [hr] at hcall
      have href : m.Refuses (.prepareOpenSync path flags) := ⟨_, _, hcall⟩
      refine ⟨.inl href, fun _ _ => href, fun h => ?_⟩
      cases hr.symm.trans (h _ (List.mem_singleton_self _))
  | false =>
      rw [hr] at hcall
      have hgo : m.Forwards (.prepareOpenSync path flags) ∨
          m.Fails (.prepareOpenSync path flags) := by
        cases hb : m.baseFileSystem with
        | none =>
            rw [hb] at hcall
            exact .inr (.inr hcall)
        | some base =>
            rw [hb] at hcall
            refine .inl ⟨base, hb, hcall.trans ?_⟩
            cases hp : base.prepareOpenSync with
            | none =>
                simp only [Option.bind_some, hp, forwarded, call]
                rfl
            | some prepareOpenSync =>
                simp only [Option.bind_some, Option.elim_some, hp, forwarded, call,
                  Bool.false_eq_true, if_false]
                exact map_zoom FsReply.bool _
      refine ⟨.inr hgo, ?_, fun _ => hgo⟩
      rintro - ⟨p, hp, hpath⟩
      rw [operands, List.mem_singleton] at hp
      rw [hp, hr] at hpath
      cases hpath

/-- **What becomes of a call that is to change something.** -/
theorem call_settled (hc : operands c ≠ []) (hw : ¬ m.WritesProjection c) : m.Settled c := by
  cases c with
  | writeFile | createDir | mkdir | removeFile | removeDir | symlink | chmod | chown | utimes
  | truncate => exact guarded_settled rfl (fun _ => rfl) rfl
  | rename oldPath newPath => exact rename_settled oldPath newPath
  | link oldPath newPath => exact link_settled oldPath newPath
  | prepareOpenSync path flags => exact prepareOpenSync_settled path flags
  | pwrite path offset data =>
      refine pwrite_settled ?_
      cases hr : m.isReadOnlyProjectionPath (normalizeOverlayPath path) with
      | true => exact (hw ⟨path, offset, data, rfl, hr⟩).elim
      | false => rfl
  | _ => exact (hc rfl).elim

/-! ### The host -/

variable {S : σ → String → Prop}

/-- The host is as it was, and one path at most was looked at, one of `S`. -/
structure Looks (S : σ → String → Prop) (w w' : World σ β) : Prop where
  host : w'.host = w.host
  asked : w'.asked = w.asked ∨ ∃ a, w'.asked = w.asked ++ [a] ∧ S w.host a.path

theorem Looks.all (h : Relation.ReflTransGen (Looks S) w w') : w'.host = w.host ∧
    ∃ asked, w'.asked = w.asked ++ asked ∧ ∀ a ∈ asked, S w.host a.path := by
  induction h with
  | refl => exact ⟨rfl, [], (List.append_nil _).symm, fun _ ha => (List.not_mem_nil ha).elim⟩
  | tail _ h ih =>
      obtain ⟨hhost, asked, hasked, hall⟩ := ih
      refine ⟨h.host.trans hhost, ?_⟩
      rcases h.asked with he | ⟨a, he, ha⟩
      · exact ⟨asked, he.trans hasked, hall⟩
      · refine ⟨asked ++ [a], by rw [he, hasked, List.append_assoc], fun b hb => ?_⟩
        rcases List.mem_append.mp hb with hb | hb
        · exact hall b hb
        · exact List.mem_singleton.mp hb ▸ hhost ▸ ha

variable (m) in
/-- What the overlay resolves a path to is one of `S`. -/
def Resolves (S : σ → String → Prop) : Prop := ∀ {host : σ} {virtualPath syscall canonical : String},
  m.resolveOverlayHostPath host virtualPath syscall = .ok (some canonical) → S host canonical

namespace Looks

theorem ask {access : HostAccess} {path : String} (answer : σ → Except SystemError α)
    (h : S w.host path) (hpath : access.path = path) :
    Steps (Looks S) w (ask access answer : Prog SystemError (World σ β) α) :=
  .update ⟨rfl, .inr ⟨access, rfl, hpath ▸ h⟩⟩ (.read (wp_lift_of (fun _ _ => .refl) fun _ _ => .refl))

theorem onBase (p : Prog SystemError β α) :
    Steps (Looks S) w (onBase p : Prog SystemError (World σ β) α) :=
  wp_of_state (.single ⟨rfl, .inl rfl⟩)

theorem fallback (syscall virtualPath : String)
    (member : VirtualFileSystem SystemError β → Prog SystemError β α) :
    Steps (Looks S) w (m.fallback syscall virtualPath member) := by
  rw [ModuleAccessFileSystem.fallback]
  cases m.baseFileSystem with
  | none => exact .throw _
  | some base => exact onBase (member base)

theorem guarded (syscall virtualPath : String)
    (member : VirtualFileSystem SystemError β → Prog SystemError β α) :
    Steps (Looks S) w (m.guarded syscall virtualPath member) := .ite (.throw _) (fallback _ _ _)

theorem mergeBase (pathValue : String) (entries : OMap String Bool) :
    Steps (Looks S) w (m.mergeBase pathValue entries) := by
  rw [ModuleAccessFileSystem.mergeBase]
  cases m.baseFileSystem with
  | none => exact .pure _
  | some base =>
      refine .ite (wp_tryCatch.mpr (wp_map.mpr ?_)) (.pure _)
      exact wp_of_state (.single ⟨rfl, .inl rfl⟩)

/-- What is done with a path that the overlay resolved. -/
theorem wp_resolved (hS : m.Resolves S)
    {Q : Option String → World σ β → Prop} {E : SystemError → World σ β → Prop}
    (hnone : Q none w) (hsome : ∀ path, S w.host path → Q (some path) w) (he : ∀ e, E e w) :
    (m.resolved virtualPath syscall).wp w Q E := by
  refine wp_bind.mpr ((wp_read _).mpr (wp_lift_of (fun hostPath h => ?_) fun e _ => he e))
  cases hostPath with
  | none => exact hnone
  | some path => exact hsome path (hS h)

variable (hS : m.Resolves S)
include hS

theorem resolved
    {f : Option String → Prog SystemError (World σ β) α} (hnone : Steps (Looks S) w (f none))
    (hsome : ∀ path, S w.host path → Steps (Looks S) w (f (some path))) :
    Steps (Looks S) w (m.resolved virtualPath syscall >>= f) :=
  wp_bind.mpr (wp_resolved hS hnone hsome fun _ => .refl)

theorem layered (syscall access virtualPath : String)
    {onHost : String → Prog SystemError (World σ β) α}
    (h : ∀ path, S w.host path → Steps (Looks S) w (onHost path))
    (member : VirtualFileSystem SystemError β → Prog SystemError β α) :
    Steps (Looks S) w (m.layered syscall access virtualPath onHost member) :=
  resolved hS (.ite (.throw _) (fallback _ _ _)) h

theorem readMergedDir (pathValue : String) : Steps (Looks S) w (m.readMergedDir pathValue) := by
  have hrest : ∀ overlayHostPath, Steps (Looks S) w (m.mergeOverlay pathValue overlayHostPath) →
      Steps (Looks S) w (m.mergeOverlay pathValue overlayHostPath >>= fun entries =>
        m.mergeBase pathValue entries >>= fun entries =>
          if entries.size = 0 ∧ ¬ m.isSyntheticPath pathValue then
            MonadExcept.throw (createEnoentError "scandir" pathValue)
          else Pure.pure entries) := fun _ h =>
    h.bind fun entries _ _ => (mergeBase pathValue entries).bind fun _ _ _ => .ite (.throw _) (.pure _)
  exact resolved hS (hrest none (.pure _)) fun path hpath =>
    hrest (some path) ((ask _ hpath rfl).bind fun _ _ _ => .pure _)

/-- A call but for `pwrite` leaves the host, and looks at what the overlay resolves. -/
theorem call (hc : ∀ path offset data, c ≠ .pwrite path offset data) :
    Steps (Looks S) w (m.fileSystem.call c) := by
  cases c with
  | readFile | readTextFile | pread => exact .map _ (layered hS _ _ _ (fun _ h => ask _ h rfl) _)
  | readDir | readDirWithTypes =>
      refine .map _ (.ite ?_ (fallback _ _ _))
      exact (readMergedDir hS _).bind fun _ _ _ => .pure _
  | fileExists path =>
      refine .map _ (.ite (.pure _) (resolved hS (.ite (.pure _) ?_) fun _ _ => .pure _))
      cases m.baseFileSystem with
      | none => exact .pure _
      | some base => exact onBase _
  | stat path =>
      have hfound := layered hS (w := w) "stat" "stat" (normalizeOverlayPath path)
        (fun hostPath h => show Steps _ _ (m.statHost hostPath) from
          (ask _ h rfl).bind fun _ _ _ => .pure _) (·.stat (normalizeOverlayPath path))
      exact .map _ (.ite (resolved hS (.ite (wp_of_state .refl) hfound) fun _ _ =>
        .ite (wp_of_state .refl) hfound) hfound)
  | lstat path =>
      exact .map _ (.ite (wp_of_state .refl) (layered hS _ _ _ (fun _ h => ask _ h rfl) _))
  | realpath path => exact .map _ (.ite (.pure _) (layered hS _ _ _ (fun _ _ => .pure _) _))
  | readlink path => exact .map _ (fallback _ _ _)
  | writeFile | createDir | mkdir | removeFile | removeDir | symlink | chmod | chown | utimes
  | truncate => exact .map _ (guarded _ _ _)
  | rename | link => exact .map _ (.ite (.throw _) (fallback _ _ _))
  | prepareOpenSync path flags =>
      refine .map _ (.ite (.throw _) ?_)
      cases m.baseFileSystem.bind (·.prepareOpenSync) with
      | none => exact .pure _
      | some prepareOpenSync => exact onBase _
  | pwrite path offset data => exact (hc path offset data rfl).elim
  | fsync | copy | readDirStat | lastClose => exact .pure _

end Looks

/-- A call leaves the host, but for a `pwrite` into the projection. -/
theorem host_of_call (hw : ¬ m.WritesProjection c) (w : World σ β) :
    ((m.fileSystem.call c).exec w).2.host = w.host := by
  by_cases hc : ∃ path offset data, c = .pwrite path offset data
  · obtain ⟨path, offset, data, rfl⟩ := hc
    have hs := call_settled (c := .pwrite path offset data) (List.cons_ne_nil _ _) hw
    rcases hs.goes with
      ⟨op, path, hcall⟩ | ⟨base, -, hcall⟩ | ⟨e, -, hcall⟩ | hcall
    · rw [hcall]
      rfl
    · rw [hcall]
      rfl
    · rw [hcall]
      rfl
    · rw [hcall]
      rfl
  · have hlooks := Looks.call (S := fun _ _ => True) (w := w) (m := m) (fun _ => trivial)
      fun path offset data he => hc ⟨path, offset, data, he⟩
    exact (Looks.all hlooks.state).1

/-! ### Runs -/

variable (m) in
/-- One call. -/
def step (w : World σ β) (c : FsCall) : Option (World σ β) := some ((m.fileSystem.call c).exec w).2

/-- **Nothing is written to the host.**  Each call that is to change something goes to the base file
system or fails, and it is refused when a path that it changes is in the projection. -/
theorem overlay_never_writes (r : Reach m.step (fun _ c => ¬ m.WritesProjection c) w w') :
    w'.host = w.host ∧
      ∀ c, operands c ≠ [] → ¬ m.WritesProjection c → m.Settled c := by
  refine ⟨?_, fun c hc hw => call_settled hc hw⟩
  refine r.invariant (I := fun v => v.host = w.host) rfl fun v c v' hv hw hs => ?_
  cases hs
  exact (host_of_call hw v).trans hv

/-- A host with one package, with one file. -/
def onePackage : HostTree where
  tree.entries := [(["app".toList], .directory), (["app".toList, "node_modules".toList], .directory),
    (["app".toList, "node_modules".toList, "x".toList], .directory),
    (["app".toList, "node_modules".toList, "x".toList, "a.js".toList], .file [1, 2, 3])]
  named := by decide

/-- The overlay of `/app` on that host, without a base file system. -/
def ofApp : Option (ModuleAccessFileSystem HostTree Unit) :=
  (ModuleAccessFileSystem.new (treeHost "/" fun _ => "") onePackage 1 none ⟨some "/app", []⟩).toOption

/-- The host is left by a `pwrite` beside the projection and a `writeFile` into it. -/
theorem overlay_never_writes_data : ∃ m w', ofApp = some m ∧
    Reach m.step (fun _ c => ¬ m.WritesProjection c) ⟨onePackage, [], ()⟩ w' ∧
    w'.host = onePackage ∧ m.Settled (.writeFile "/root/node_modules/x/a.js" (.bytes [])) := by
  have hdata : ofApp.map (·.isReadOnlyProjectionPath (normalizeOverlayPath "/data/x")) =
      some false := by decide +kernel
  obtain ⟨m, hm, hdata⟩ := Option.map_eq_some_iff.mp hdata
  have hpwrite : ¬ m.WritesProjection (.pwrite "/data/x" 0 [7]) := by
    rintro ⟨path, offset, data, ⟨⟩, hp⟩
    cases hp.symm.trans hdata
  have hwrite : ¬ m.WritesProjection (.writeFile "/root/node_modules/x/a.js" (.bytes [])) := by
    rintro ⟨path, offset, data, ⟨⟩, -⟩
  have r : Reach m.step (fun _ c => ¬ m.WritesProjection c) ⟨onePackage, [], ()⟩ _ :=
    .next (.one hpwrite rfl) hwrite rfl
  exact ⟨m, _, hm, r, (overlay_never_writes r).1,
    (overlay_never_writes r).2 _ (List.cons_ne_nil _ _) hwrite⟩

/-- The file of a package is written. -/
theorem pwrite_host : (ofApp.map fun m =>
    (((m.fileSystem.call (.pwrite "/root/node_modules/x/a.js" 0 [7])).exec
      ⟨onePackage, [], ()⟩).2.host.tree.entries.map Prod.snd).getLast?) =
      some (some (.file [7, 2, 3])) := by decide +kernel

/-- A `pwrite` into a package changes the host. -/
theorem overlay_pwrite : ¬ ∀ m w', ofApp = some m →
    Reach m.step Any ⟨onePackage, [], ()⟩ w' → w'.host = onePackage := by
  intro hall
  obtain ⟨m, hm, hw⟩ := Option.map_eq_some_iff.mp pwrite_host
  have hhost := hall m _ hm (.one (a := .pwrite "/root/node_modules/x/a.js" 0 [7]) trivial rfl)
  rw [hhost] at hw
  revert hw
  decide +kernel

end ModuleAccessFileSystem

end ModuleAccess
