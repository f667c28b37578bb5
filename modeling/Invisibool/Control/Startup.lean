import Invisibool.Control.Sockets

/-!
# The startup of the daemon

What a daemon can rely on when it clears its path and binds there, and what it has when it goes
on to serve.
-/

namespace Invisibool.Control
open Text Process

section Startup

variable {ι : Type} [DecidableEq ι] {sure : Prop} {i j : ι} {path : PathBuf}
  {s s' : Sockets ι}

/-! ### The programs among other daemons -/

lemma prepareParent_onDir (parent : Option Str) : (prepareParent parent).Only SocketCall.OnDir := by
  refine ⟨trivial, fun ans => ?_⟩
  cases ans with
  | ok mode => dsimp only; split <;> trivial
  | error e =>
    dsimp only
    split
    · refine ⟨trivial, fun ans => ?_⟩
      cases ans with
      | error e => trivial
      | ok u => exact ⟨rfl, fun _ => trivial⟩
    · trivial

lemma SocketCall.OnDir.at {call : SocketCall} (h : call.OnDir) (path : PathBuf) : call.At path := by
  cases call with
  | setDirPermissions dir mode => exact h
  | dirMetadata dir => trivial
  | createDirAll dir => trivial
  | «exists» _ | socket | connect _ | removeFile _ | bind _ | listen _ _ | setPermissions _ _
  | metadata _ | close _ => exact h.elim

lemma probeConnectNonblocking_at (path : PathBuf) :
    (probeConnectNonblocking path).Only (SocketCall.At path) := by
  refine ⟨trivial, fun ans => ?_⟩
  cases ans with
  | error e => trivial
  | ok u =>
    dsimp only
    split
    · trivial
    · refine ⟨trivial, fun ans => ?_⟩
      cases ans with
      | ok u => trivial
      | error e => dsimp only; split <;> [trivial; (split <;> trivial)]

lemma cleanupStaleSocket_at (path : PathBuf) :
    (cleanupStaleSocket path).Only (SocketCall.At path) := by
  refine ⟨trivial, fun found => ?_⟩
  cases found with
  | false => trivial
  | true =>
    refine (probeConnectNonblocking_at path).bind fun r => ?_
    match r with
    | .ok .live => trivial
    | .ok .stale => exact ⟨rfl, fun _ => trivial⟩
    | .error e => trivial

lemma UnixListener.bind_at (path : PathBuf) :
    (UnixListener.bind path).Only (SocketCall.At path) := by
  refine ⟨rfl, fun ans => ?_⟩
  cases ans with
  | error e => trivial
  | ok listener =>
    refine ⟨trivial, fun ans => ?_⟩
    cases ans with
    | error e => exact ⟨trivial, fun _ => trivial⟩
    | ok u => trivial

lemma setSocketMode_at (path : PathBuf) : (setSocketMode path).Only (SocketCall.At path) := by
  refine ⟨rfl, fun ans => ?_⟩
  cases ans with
  | error e => trivial
  | ok u =>
    refine ⟨trivial, fun ans => ?_⟩
    cases ans with
    | error e => trivial
    | ok mode => dsimp only; split <;> trivial

lemma startUp_at (path : PathBuf) : (startUp path).Only (SocketCall.At path) := by
  refine (cleanupStaleSocket_at path).andThen fun _ => ?_
  refine ((prepareParent_onDir path.parent).mono fun _ h => h.at path).andThen fun _ => ?_
  refine (UnixListener.bind_at path).andThen fun listener => ?_
  have hlisten : (setListenBacklog listener listenBacklog).Only (SocketCall.At path) :=
    ⟨trivial, fun _ => trivial⟩
  refine ((setSocketMode_at path).andThen fun _ => hlisten).bind fun r => ?_
  cases r with
  | error e => exact ⟨trivial, fun _ => trivial⟩
  | ok u => trivial

lemma UnixServer.closeDown_at (server : UnixServer) :
    server.closeDown.Only (SocketCall.At server.socketPath) :=
  ⟨rfl, fun _ => ⟨trivial, fun _ => trivial⟩⟩

/-- The file at the path, if there is one, has lost its listener. -/
structure Sockets.Vacant (s : Sockets ι) (path : PathBuf) : Prop where
  file : ∀ file, s.files path = some file →
    file.inode < s.fresh ∧ s.listeners file.inode = none
  dir : s.Private path.parent

/-- The path leads to a socket that the process has bound, in a private directory. It fits into the
address of the socket. -/
structure Sockets.Opened (s : Sockets ι) (i : ι) (path : PathBuf) (listener mode : Nat)
    (backlog : Option Nat) : Prop where
  file : s.files path = some ⟨listener, mode⟩
  live : s.listeners listener = some ⟨i, backlog⟩
  lt_fresh : listener < s.fresh
  dir : s.Private path.parent
  short : byteLen path.display < sunPathLen

/-- The socket listens, and nobody else may use it. -/
def Sockets.Bound (s : Sockets ι) (i : ι) (server : UnixServer) : Prop :=
  s.Opened i server.socketPath server.listener requiredSocketMode (some listenBacklog)

/-- What the others spare, while the process runs at the path. -/
abbrev Among (sure : Prop) (path : PathBuf) (i : ι) {α : Type} (post : α → Sockets ι → Prop)
    (p : SocketProgram α) (s : Sockets ι) : Prop :=
  Holds (socketWorld sure i) (Sockets.Spares path i) (fun _ _ => True) post p s

omit [DecidableEq ι] in
lemma Sockets.Vacant.spared (h : s.Vacant path) (hs : Sockets.Spares path i s s') :
    s'.Vacant path where
  file file hfile := by
    rw [hs.files] at hfile
    obtain ⟨hlt, hnone⟩ := h.file file hfile
    exact ⟨hlt.trans_le hs.fresh, hs.dead _ hlt hnone⟩
  dir := hs.dirs _ h.dir

omit [DecidableEq ι] in
lemma Sockets.Opened.spared {listener mode : Nat} {backlog : Option Nat}
    (h : s.Opened i path listener mode backlog) (hs : Sockets.Spares path i s s') :
    s'.Opened i path listener mode backlog where
  file := hs.files.trans h.file
  live := hs.mine _ _ h.live rfl
  lt_fresh := h.lt_fresh.trans_le hs.fresh
  short := h.short
  dir := hs.dirs _ h.dir

/-- A directory is private once it is prepared, and one that was private is accepted. -/
lemma prepareParent_holds {rely : Sockets ι → Sockets ι → Prop} {parent : Option Str}
    (hrely : ∀ s s', rely s s' → ∀ dir, s.Private dir → s'.Private dir) :
    Holds (socketWorld sure i) rely (fun _ _ => True) (fun r s' =>
      (r = .ok () → s'.Private parent) ∧ (s.Private parent → sure → r = .ok ()))
      (prepareParent parent) s := by
  intro s₁ hs₁ ans s₂ hcall
  refine ⟨trivial, ?_⟩
  cases ans with
  | ok mode =>
    have hmode : parent.bind s₁.dirs = some mode ∧ s₂ = s₁ := by
      rcases hcall with hexec | ⟨-, ⟨e, he⟩, -⟩
      · unfold Sockets.exec at hexec
        dsimp only at hexec
        split at hexec
        · cases hexec
          exact ⟨‹_›, rfl⟩
        · cases hexec
      · cases he
    obtain ⟨hmode, rfl⟩ := hmode
    dsimp only
    split
    · rename_i hwrong
      intro s₃ hs₃
      refine ⟨(fun h => by cases h), fun hpriv _ => ?_⟩
      obtain ⟨mode', hmode', hright⟩ := hrely _ _ hs₁ _ hpriv
      rw [hmode, Option.some.injEq] at hmode'
      exact absurd (hmode' ▸ hright) hwrong
    · rename_i hright
      exact fun s₃ hs₃ =>
        ⟨fun _ => hrely _ _ hs₃ _ ⟨mode, hmode, not_not.mp hright⟩, fun _ _ => rfl⟩
  | error e =>
    -- the directory was not private, or the call failed
    have hnot : ¬(s.Private parent ∧ sure) := by
      rintro ⟨hpriv, hsure⟩
      obtain ⟨mode, hmode, -⟩ := hrely _ _ hs₁ _ hpriv
      rcases hcall with hexec | ⟨hfails, -⟩
      · unfold Sockets.exec at hexec
        dsimp only at hexec
        rw [hmode] at hexec
        cases hexec
      · exact hfails hsure
    have hfailed : ∀ (r : Except StartError Unit), s.Private parent → sure → r = .ok () :=
      fun r hpriv hsure => absurd ⟨hpriv, hsure⟩ hnot
    dsimp only
    split
    · intro s₃ hs₃ ans s₄ hcreate
      refine ⟨trivial, ?_⟩
      cases ans with
      | error e => exact fun s₅ hs₅ => ⟨(fun h => by cases h), hfailed _⟩
      | ok u =>
        intro s₅ hs₅ ans s₆ hset
        refine ⟨trivial, fun s₇ hs₇ => ⟨fun hok => hrely _ _ hs₇ _ ?_, hfailed _⟩⟩
        cases ans with
        | error e => cases hok
        | ok u =>
          rcases hset with hexec | ⟨-, ⟨e, he⟩, -⟩
          · cases parent with
            | none => cases hexec
            | some dir =>
              unfold Sockets.exec at hexec
              dsimp only at hexec
              split at hexec
              · cases hexec
                exact ⟨requiredParentMode, Function.update_self _ _ _, rfl⟩
              · cases hexec
          · cases he
    · exact fun s₃ hs₃ => ⟨(fun h => by cases h), hfailed _⟩

/-- The probe finds nobody at a path that is vacant. -/
lemma probe_holds (hv : s.Vacant path) : Among sure path i (fun r s' =>
    s'.Vacant path ∧ s'.files path = s.files path ∧
      (sure → byteLen path.display < sunPathLen → r = .ok .stale))
    (probeConnectNonblocking path) s := by
  intro s₁ hs₁ ans s₂ hcall
  refine ⟨trivial, ?_⟩
  have hsocket : s₂ = s₁ ∧ (sure → ans = .ok ()) := by
    rcases hcall with hexec | ⟨hfails, -, rfl⟩
    · cases hexec
      exact ⟨rfl, fun _ => rfl⟩
    · exact ⟨rfl, fun hsure => absurd hsure hfails⟩
  obtain ⟨rfl, hok⟩ := hsocket
  have hv₁ := hv.spared hs₁
  cases ans with
  | error e =>
    refine fun s₃ hs₃ => ⟨hv₁.spared hs₃, hs₃.files.trans hs₁.files, fun hsure => ?_⟩
    cases hok hsure
  | ok u =>
    dsimp only
    split
    · rename_i hlong
      exact fun s₃ hs₃ => ⟨hv₁.spared hs₃, hs₃.files.trans hs₁.files,
        fun _ hshort => absurd hshort (Nat.not_lt.mpr hlong)⟩
    · rename_i hlong
      intro s₃ hs₃ ans s₄ hcall
      refine ⟨trivial, ?_⟩
      have hv₃ := hv₁.spared hs₃
      have hconnect : s₄ = s₃ ∧
          (sure → ans = .error (.os enoent) ∨ ans = .error (.os econnrefused)) := by
        rcases hcall with hexec | ⟨hfails, -, rfl⟩
        · unfold Sockets.exec at hexec
          dsimp only at hexec
          rw [if_neg hlong] at hexec
          split at hexec
          · cases hexec
            exact ⟨rfl, fun _ => .inl rfl⟩
          · rename_i file hfile
            rw [(hv₃.file file hfile).2] at hexec
            cases hexec
            exact ⟨rfl, fun _ => .inr rfl⟩
        · exact ⟨rfl, fun hsure => absurd hsure hfails⟩
      obtain ⟨rfl, hdead⟩ := hconnect
      have hfiles := hs₃.files.trans hs₁.files
      cases ans with
      | ok u =>
        refine fun s₅ hs₅ => ⟨hv₃.spared hs₅, hs₅.files.trans hfiles, fun hsure => ?_⟩
        rcases hdead hsure with h | h <;> cases h
      | error e =>
        dsimp only
        split
        · exact fun s₅ hs₅ => ⟨hv₃.spared hs₅, hs₅.files.trans hfiles, fun _ _ => rfl⟩
        · rename_i hnot
          have hunsure : ¬sure := by
            intro hsure
            rcases hdead hsure with h | h
            · exact hnot (.inr (Except.error.inj h))
            · exact hnot (.inl (Except.error.inj h))
          split
          · exact fun s₅ hs₅ => ⟨hv₃.spared hs₅, hs₅.files.trans hfiles,
              fun hsure => absurd hsure hunsure⟩
          · exact fun s₅ hs₅ => ⟨hv₃.spared hs₅, hs₅.files.trans hfiles,
              fun hsure => absurd hsure hunsure⟩

/-- A file that has lost its listener is removed. -/
lemma cleanup_holds (hv : s.Vacant path) : Among sure path i (fun r s' =>
    s'.Vacant path ∧ (sure → byteLen path.display < sunPathLen →
      r = .ok () ∧ s'.files path = none)) (cleanupStaleSocket path) s := by
  intro s₁ hs₁ found s₂ hcall
  refine ⟨trivial, ?_⟩
  have hexists : s₂ = s₁ ∧ (sure → found = (s₁.files path).isSome) := by
    rcases hcall with hexec | ⟨hfails, -, rfl⟩
    · cases hexec
      exact ⟨rfl, fun _ => rfl⟩
    · exact ⟨rfl, fun hsure => absurd hsure hfails⟩
  obtain ⟨rfl, hfound⟩ := hexists
  have hv₁ := hv.spared hs₁
  cases found with
  | false =>
    refine fun s₃ hs₃ => ⟨hv₁.spared hs₃, fun hsure _ => ⟨rfl, ?_⟩⟩
    rw [hs₃.files]
    exact Option.not_isSome_iff_eq_none.mp (by simp [← hfound hsure])
  | true =>
    refine Holds.bind (Sockets.Spares.refl path i) ((probe_holds hv₁).mono (fun _ _ h => h) ?_)
    rintro r s₃ ⟨hv₃, hfiles, hstale⟩
    match r with
    | .ok .live =>
      exact fun s₄ hs₄ => ⟨hv₃.spared hs₄, fun hsure hshort => by cases hstale hsure hshort⟩
    | .error e =>
      exact fun s₄ hs₄ => ⟨hv₃.spared hs₄, fun hsure hshort => by cases hstale hsure hshort⟩
    | .ok .stale =>
      intro s₄ hs₄ ans s₅ hcall
      refine ⟨trivial, ?_⟩
      have hv₄ := hv₃.spared hs₄
      have hremoved : s₅.Vacant path ∧ (sure → ans = .ok () ∧ s₅.files path = none) := by
        rcases hcall with hexec | ⟨hfails, -, rfl⟩
        · unfold Sockets.exec at hexec
          dsimp only at hexec
          split at hexec
          · rename_i hnone
            cases hexec
            refine ⟨hv₄, fun hsure => ?_⟩
            have hsome := hfound hsure
            rw [← hfiles, ← hs₄.files, hnone] at hsome
            cases hsome
          · cases hexec
            have hnone : Function.update s₄.files path none path = none :=
              Function.update_self _ _ _
            refine ⟨⟨fun file hfile => ?_, hv₄.dir⟩, fun _ => ⟨rfl, hnone⟩⟩
            cases hnone.symm.trans hfile
        · exact ⟨hv₄, fun hsure => absurd hsure hfails⟩
      obtain ⟨hv₅, hok⟩ := hremoved
      refine fun s₆ hs₆ => ⟨hv₅.spared hs₆, fun hsure _ => ?_⟩
      obtain ⟨rfl, hnone⟩ := hok hsure
      exact ⟨rfl, hs₆.files.trans hnone⟩

/-- A process sets the backlog of a socket that it has bound. -/
lemma listen_holds {listener mode backlog : Nat} {before : Option Nat}
    (h : s.Opened i path listener mode before) : Among sure path i (fun ans s' =>
      (ans = .ok () → s'.Opened i path listener mode (some backlog)) ∧ (sure → ans = .ok ()))
      (.perform (SocketCall.listen listener backlog)) s := by
  intro s₁ hs₁ ans s₂ hcall
  have h₁ := h.spared hs₁
  refine ⟨trivial, fun s₃ hs₃ => ?_⟩
  rcases hcall with hexec | ⟨hfails, ⟨e, rfl⟩, -⟩
  · unfold Sockets.exec at hexec
    dsimp only at hexec
    rw [h₁.live] at hexec
    dsimp only at hexec
    rw [if_pos rfl] at hexec
    cases hexec
    have h₂ : Sockets.Opened { s₁ with
        listeners := Function.update s₁.listeners listener (some ⟨i, some backlog⟩) }
        i path listener mode (some backlog) :=
      ⟨h₁.file, Function.update_self _ _ _, h₁.lt_fresh, h₁.dir, h₁.short⟩
    exact ⟨fun _ => h₂.spared hs₃, fun _ => rfl⟩
  · exact ⟨(fun hok => by cases hok), fun hsure => absurd hsure hfails⟩

lemma UnixListener.bind_holds (hv : s.Vacant path) : Among sure path i (fun r s' =>
    (∀ listener, r = .ok listener → ∃ mode, s'.Opened i path listener mode (some somaxconn)) ∧
      (sure → byteLen path.display < sunPathLen → s.files path = none →
        ∃ listener, r = .ok listener))
    (UnixListener.bind path) s := by
  intro s₁ hs₁ ans s₂ hcall
  refine ⟨trivial, ?_⟩
  have hv₁ := hv.spared hs₁
  have hbound : (∀ listener, ans = .ok listener → ∃ mode, s₂.Opened i path listener mode none) ∧
      (sure → byteLen path.display < sunPathLen → s.files path = none →
        ∃ listener, ans = .ok listener) := by
    rcases hcall with hexec | ⟨hfails, ⟨e, rfl⟩, -⟩
    · unfold Sockets.exec at hexec
      dsimp only at hexec
      split at hexec
      · rename_i hlong
        cases hexec
        exact ⟨(fun _ h => by cases h), fun _ hshort => absurd hshort (Nat.not_lt.mpr hlong)⟩
      · rename_i hfits
        split at hexec
        · rename_i file _ hfile
          cases hexec
          refine ⟨(fun _ h => by cases h), fun _ _ hnone => ?_⟩
          rw [hs₁.files, hnone] at hfile
          cases hfile
        · rename_i hdir
          -- the directory of the path is there, since it is private
          obtain ⟨mode, hmode, -⟩ := hv₁.dir
          obtain ⟨dir, hparent, hmode⟩ := Option.bind_eq_some_iff.mp hmode
          unfold PathBuf.parent at hparent
          split at hparent
          · cases hparent
          · cases hparent
            rw [hdir] at hmode
            cases hmode
        · cases hexec
          refine ⟨fun listener hlistener => ?_, fun _ _ _ => ⟨_, rfl⟩⟩
          cases hlistener
          exact ⟨_, Function.update_self _ _ _, Function.update_self _ _ _, Nat.lt_succ_self _,
            hv₁.dir, Nat.lt_of_not_le hfits⟩
    · exact ⟨(fun _ h => by cases h), fun hsure => absurd hsure hfails⟩
  cases ans with
  | error e =>
    refine fun s₃ hs₃ => ⟨(fun _ h => by cases h), fun hsure hshort hnone => ?_⟩
    obtain ⟨listener, h⟩ := hbound.2 hsure hshort hnone
    cases h
  | ok listener =>
    obtain ⟨mode, hopened⟩ := hbound.1 listener rfl
    intro s₃ hs₃ ans s₄ hcall
    have hsomaxconn : Among sure path i _ (.perform (.listen listener somaxconn)) s₂ :=
      listen_holds hopened
    obtain ⟨-, hlisten⟩ := hsomaxconn s₃ hs₃ ans s₄ hcall
    refine ⟨trivial, ?_⟩
    cases ans with
    | error e =>
      intro s₅ hs₅ ans s₆ hclose
      refine ⟨trivial, fun s₇ hs₇ => ⟨(fun _ h => by cases h), fun hsure => ?_⟩⟩
      cases (hlisten s₅ hs₅).2 hsure
    | ok u =>
      refine fun s₅ hs₅ => ⟨fun listener' hlistener => ?_, fun _ _ _ => ⟨listener, rfl⟩⟩
      cases hlistener
      exact ⟨mode, (hlisten s₅ hs₅).1 rfl⟩

/-- The socket is given the mode that is required, which is found there afterwards. -/
lemma setSocketMode_holds {listener mode : Nat} {backlog : Option Nat}
    (h : s.Opened i path listener mode backlog) : Among sure path i (fun r s' =>
      (r = .ok () → s'.Opened i path listener requiredSocketMode backlog) ∧ (sure → r = .ok ()))
      (setSocketMode path) s := by
  intro s₁ hs₁ ans s₂ hcall
  have h₁ := h.spared hs₁
  refine ⟨trivial, ?_⟩
  rcases hcall with hexec | ⟨hfails, ⟨e, rfl⟩, -⟩
  · unfold Sockets.exec at hexec
    dsimp only at hexec
    rw [h₁.file] at hexec
    cases hexec
    have h₂ : Sockets.Opened { s₁ with
        files := Function.update s₁.files path (some ⟨listener, requiredSocketMode⟩) }
        i path listener requiredSocketMode backlog :=
      ⟨Function.update_self _ _ _, h₁.live, h₁.lt_fresh, h₁.dir, h₁.short⟩
    intro s₃ hs₃ ans s₄ hcall
    have h₃ := h₂.spared hs₃
    refine ⟨trivial, ?_⟩
    rcases hcall with hexec | ⟨hfails, ⟨e, rfl⟩, -⟩
    · unfold Sockets.exec at hexec
      dsimp only at hexec
      rw [h₃.file] at hexec
      cases hexec
      dsimp only
      rw [if_neg (not_not.mpr (by decide : requiredSocketMode &&& 0o777 = requiredSocketMode))]
      exact fun s₅ hs₅ => ⟨fun _ => h₃.spared hs₅, fun _ => rfl⟩
    · exact fun s₅ hs₅ => ⟨(fun hok => by cases hok), fun hsure => absurd hsure hfails⟩
  · exact fun s₃ hs₃ => ⟨(fun hok => by cases hok), fun hsure => absurd hsure hfails⟩

/-- What the daemon has when it goes on to serve; and if none of its calls fails, it does. -/
def Started (sure : Prop) (path : PathBuf) (i : ι) (r : Except StartError UnixServer)
    (s : Sockets ι) : Prop :=
  (∀ server, r = .ok server → server.socketPath = path ∧ s.Bound i server) ∧
    (sure → byteLen path.display < sunPathLen → ∃ server, r = .ok server)

lemma UnixServer.bind_holds (hv : s.Vacant path)
    (hclear : sure → byteLen path.display < sunPathLen → s.files path = none) :
    Among sure path i (Started sure path i) (UnixServer.bind path) s := by
  have hrefl := Sockets.Spares.refl (ι := ι) path i
  have hprepare : Among sure path i (fun r s' =>
      (sure → r = .ok ()) ∧ s'.Vacant path ∧ s'.files path = s.files path)
      (prepareParentDir path) s := by
    have hkept : ∀ s₁ s₂, (s₁.Vacant path ∧ s₁.files path = s.files path) →
        Sockets.Spares path i s₁ s₂ → s₂.Vacant path ∧ s₂.files path = s.files path :=
      fun s₁ s₂ ⟨hv, hfiles⟩ hs => ⟨hv.spared hs, hs.files.trans hfiles⟩
    have hprivate : Among sure path i _ (prepareParent path.parent) s :=
      prepareParent_holds fun _ _ hs => hs.dirs
    have hquiet := (hprivate.guaranteed (prepareParent_onDir path.parent)
      fun _ _ _ _ hon hcall => socketWorld.dirsOnly hcall hon).frame ⟨hv, rfl⟩ hkept
        fun s₁ s₂ h hs => hkept s₁ s₂ h (hs.spares path i)
    exact hquiet.mono (fun _ _ _ => trivial) fun r s' ⟨h, hv'⟩ => ⟨h.2 hv.dir, hv'⟩
  refine Holds.andThen hrefl (hprepare.mono (fun _ _ h => h) ?_)
  rintro r s₁ ⟨hok, hv₁, hfiles⟩
  cases r with
  | error e =>
    refine fun s₂ hs₂ => ⟨(fun _ h => by cases h), fun hsure => ?_⟩
    cases hok hsure
  | ok u =>
    refine Holds.andThen hrefl ((UnixListener.bind_holds hv₁).mono (fun _ _ h => h) ?_)
    rintro r s₂ ⟨hopened, hok⟩
    rw [hfiles] at hok
    cases r with
    | error e =>
      refine fun s₃ hs₃ => ⟨(fun _ h => by cases h), fun hsure hshort => ?_⟩
      obtain ⟨listener, h⟩ := hok hsure hshort (hclear hsure hshort)
      cases h
    | ok listener =>
      obtain ⟨mode, hopened⟩ := hopened listener rfl
      refine Holds.bind hrefl (Holds.andThen hrefl
        ((setSocketMode_holds hopened).mono (fun _ _ h => h) ?_))
      rintro r s₃ ⟨hmode, hok⟩
      cases r with
      | error e =>
        intro s₄ hs₄ s₅ hs₅ ans s₆ hclose
        refine ⟨trivial, fun s₇ hs₇ => ⟨(fun _ h => by cases h), fun hsure => ?_⟩⟩
        cases hok hsure
      | ok u =>
        have hlisten : Among sure path i _ (.perform (.listen listener listenBacklog)) s₃ :=
          listen_holds (hmode rfl)
        intro s₄ hs₄ ans s₅ hcall
        obtain ⟨-, hlisten⟩ := hlisten s₄ hs₄ ans s₅ hcall
        refine ⟨trivial, ?_⟩
        cases ans with
        | error e =>
          intro s₆ hs₆ s₇ hs₇ ans s₈ hclose
          refine ⟨trivial, fun s₉ hs₉ => ⟨(fun _ h => by cases h), fun hsure => ?_⟩⟩
          cases (hlisten s₆ hs₆).2 hsure
        | ok u =>
          intro s₆ hs₆ s₇ hs₇
          refine ⟨fun server hserver => ?_, fun _ _ => ⟨_, rfl⟩⟩
          cases hserver
          exact ⟨rfl, ((hlisten s₆ hs₆).1 rfl).spared hs₇⟩

/-- A daemon that finds its path vacant, and is spared by the others, comes to serve there. -/
lemma startUp_holds (hv : s.Vacant path) :
    Among sure path i (Started sure path i) (startUp path) s := by
  refine Holds.andThen (Sockets.Spares.refl path i) ((cleanup_holds hv).mono (fun _ _ h => h) ?_)
  rintro r s₁ ⟨hv₁, hok⟩
  cases r with
  | error e =>
    refine fun s₂ hs₂ => ⟨(fun _ h => by cases h), fun hsure hshort => ?_⟩
    cases (hok hsure hshort).1
  | ok u => exact UnixServer.bind_holds hv₁ fun hsure hshort => (hok hsure hshort).2

/-- A daemon that stops closes its listener, whether or not it can remove the socket. -/
lemma UnixServer.closeDown_holds {server : UnixServer} (h : s.Bound i server) :
    Holds (socketWorld sure i) (Sockets.Spares server.socketPath i) (fun _ _ => True)
      (fun _ s' => s'.Vacant server.socketPath) server.closeDown s := by
  intro s₁ hs₁ ans s₂ hcall
  have h₁ := h.spared hs₁
  refine ⟨trivial, ?_⟩
  have hremoved : (∀ file, s₂.files server.socketPath = some file → file.inode = server.listener) ∧
      s₂.listeners server.listener = some ⟨i, some listenBacklog⟩ ∧ server.listener < s₂.fresh ∧
      s₂.Private server.socketPath.parent := by
    have hbefore : ∀ file, s₁.files server.socketPath = some file →
        file.inode = server.listener := by
      intro file hfile
      rw [h₁.file] at hfile
      cases hfile
      rfl
    rcases hcall with hexec | ⟨-, -, rfl⟩
    · unfold Sockets.exec at hexec
      dsimp only at hexec
      rw [h₁.file] at hexec
      cases hexec
      refine ⟨fun file hfile => ?_, h₁.live, h₁.lt_fresh, h₁.dir⟩
      have hnone : Function.update s₁.files server.socketPath none server.socketPath = none :=
        Function.update_self _ _ _
      cases hnone.symm.trans hfile
    · exact ⟨hbefore, h₁.live, h₁.lt_fresh, h₁.dir⟩
  obtain ⟨hfile, hlistener, hlt, hdir⟩ := hremoved
  intro s₃ hs₃ _ s₄ hclose
  refine ⟨trivial, fun s₅ hs₅ => Sockets.Vacant.spared ?_ hs₅⟩
  rcases hclose with hexec | ⟨-, hfails, -⟩
  · unfold Sockets.exec at hexec
    dsimp only at hexec
    rw [hs₃.mine _ _ hlistener rfl] at hexec
    dsimp only at hexec
    rw [if_pos rfl] at hexec
    cases hexec
    refine ⟨fun file hfile₃ => ?_, hs₃.dirs _ hdir⟩
    have hinode := hfile file (hs₃.files.symm.trans hfile₃)
    rw [hinode]
    exact ⟨hlt.trans_le hs₃.fresh, Function.update_self _ _ _⟩
  · exact hfails.elim

end Startup

end Invisibool.Control
