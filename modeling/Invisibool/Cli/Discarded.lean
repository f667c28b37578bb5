import Invisibool.Cli.Delivery
import Invisibool.Engine.SessionRoundTrip
import Invisibool.Tokenizer.SessionImport

/-!
# The number of discarded entries

`restore --session` says how many entries of its file it has discarded unused. It counts the
entries whose fake is not in the input, before the session pass replaces one fake after the other
in a text that changes.
-/

namespace Invisibool
open Text Process FileSystem
open Format hiding Bytes

namespace Engine

/-- The pairs that the session pass replaces, each at the turn of its fake. -/
def replacedPairs (now : Nat) : SessionPass → List Str → List (Str × Str)
  | _, [] => []
  | st, fake :: fakes =>
    match (st.session.restore fake now).2 with
    | none => replacedPairs now (restoreFake now st fake) fakes
    | some real =>
      if 0 < matchCount st.working fake then
        (fake, real) :: replacedPairs now (restoreFake now st fake) fakes
      else replacedPairs now (restoreFake now st fake) fakes

/-- The pairs that `restore_with_session` replaces in its session pass. -/
def passReplaces (ord : HashOrder) (session : SessionMap) (input : Str) (now : Nat) :
    List (Str × Str) :=
  replacedPairs now ⟨input, 0, session⟩ (candidateFakes ord session input)

/-- Each fake is in the text that the replacements before it have left. -/
def AllFound : Str → List (Str × Str) → Prop
  | _, [] => True
  | text, pair :: pairs => contains text pair.1 = true ∧ AllFound (replace text pair.1 pair.2) pairs

end Engine

def CommandNotice.discardedCount : CommandNotice → Nat
  | discarded count => count
  | _ => 0

/-- The number of entries that a command says it has discarded. -/
def CommandResult.discarded (result : CommandResult) : Nat :=
  (result.notices.map CommandNotice.discardedCount).sum

namespace SessionContents

variable (c : SessionContents) (p : TextProcess)

/-- The map that a restore at this time makes of the entries. -/
def mapFor : SessionMap := c.toMap (saturatingSub c.expiresAt p.nowEpoch) p.nowInstant

/-- The number that a restore counts before its session pass. -/
def unused (input : Str) : Nat :=
  c.entries.length - (c.entries.filter fun entry => contains input entry.fake).length

/-- The entries none of whose fakes the session pass replaces by the real value. -/
def unreplaced : List SessionPair :=
  c.entries.filter fun entry => decide ((entry.fake, entry.real) ∉
    Engine.passReplaces p.ord (c.mapFor p) p.input p.nowInstant)

/-- Entries with one fake, if it is in the input, have one real value; and when the fakes that are
in the input are replaced one by one, none is gone when its turn comes. -/
structure Undisturbed : Prop where
  agree : ∀ entry ∈ c.entries, ∀ entry' ∈ c.entries, contains p.input entry.fake = true →
    entry.fake = entry'.fake → entry.real = entry'.real
  found : Engine.AllFound p.input
    (((c.mapFor p).entries p.ord).filter fun pair => contains p.input pair.1)

end SessionContents

namespace Engine

/-- The same for a fixed assignment of real values. -/
def replacedIn (realOf : Str → Option Str) : Str → List Str → List (Str × Str)
  | _, [] => []
  | text, fake :: fakes =>
    match realOf fake with
    | none => replacedIn realOf text fakes
    | some real =>
      if 0 < matchCount text fake then (fake, real) :: replacedIn realOf (replace text fake real) fakes
      else replacedIn realOf text fakes

variable {realOf : Str → Option Str} {text fake real : Str} {fakes : List Str}

lemma replacedPairs_eq (now : Nat) (fakes : List Str) (st : SessionPass) :
    replacedPairs now st fakes = replacedIn (st.session.realOf now) st.working fakes := by
  induction fakes generalizing st with
  | nil => rfl
  | cons fake fakes ih =>
    obtain ⟨hworking, hreal⟩ := restoreFake_eq now st fake
    have htext : (restoreFake now st fake).working =
        (restoreIn (st.session.realOf now) (st.working, st.restored) fake).1 :=
      congrArg Prod.fst hworking
    unfold replacedPairs replacedIn
    rw [SessionMap.restore_snd, ih, hreal, htext]
    unfold restoreIn
    cases st.session.realOf now fake with
    | none => rfl
    | some real =>
      dsimp only
      split
      · rfl
      · rename_i hzero
        have hcount : matchCount st.working fake = 0 := by omega
        rw [replace_of_matchCount hcount]

lemma mem_replacedIn (h : (fake, real) ∈ replacedIn realOf text fakes) :
    fake ∈ fakes ∧ realOf fake = some real := by
  induction fakes generalizing text with
  | nil => cases h
  | cons fake' fakes ih =>
    have hlater : ∀ text', (fake, real) ∈ replacedIn realOf text' fakes →
        fake ∈ fake' :: fakes ∧ realOf fake = some real := by
      intro text' hmem
      obtain ⟨hfake, hreal⟩ := ih hmem
      exact ⟨List.mem_cons_of_mem _ hfake, hreal⟩
    unfold replacedIn at h
    split at h
    · exact hlater _ h
    · rename_i real' hreal'
      split at h
      · rcases List.mem_cons.mp h with heq | hmem
        · obtain ⟨rfl, rfl⟩ := Prod.mk.inj heq
          exact ⟨List.mem_cons_self, hreal'⟩
        · exact hlater _ hmem
      · exact hlater _ h

/-- All pairs are replaced exactly if each is found at its turn. -/
lemma forall_mem_replacedIn {pairs : List (Str × Str)} (hnodup : (pairs.map Prod.fst).Nodup)
    (hreal : ∀ pair ∈ pairs, realOf pair.1 = some pair.2) :
    (∀ pair ∈ pairs, pair ∈ replacedIn realOf text (pairs.map Prod.fst)) ↔ AllFound text pairs := by
  induction pairs generalizing text with
  | nil => exact iff_of_true (fun _ h => by cases h) trivial
  | cons pair pairs ih =>
    obtain ⟨hfresh, hnodup⟩ := List.nodup_cons.mp hnodup
    have hpair := hreal pair List.mem_cons_self
    have hpairs : ∀ text, (∀ q ∈ pairs, q ∈ replacedIn realOf text (pairs.map Prod.fst)) ↔
        AllFound text pairs :=
      fun text => ih hnodup fun q hq => hreal q (List.mem_cons_of_mem pair hq)
    unfold AllFound
    rw [List.map_cons, replacedIn, hpair]
    dsimp only
    by_cases hcount : 0 < matchCount text pair.1
    · rw [if_pos hcount, ← hpairs]
      constructor
      · intro h
        refine ⟨matchCount_pos_iff.mp hcount, fun q hq => ?_⟩
        refine (List.mem_cons.mp (h q (List.mem_cons_of_mem pair hq))).resolve_left ?_
        rintro rfl
        exact hfresh (List.mem_map_of_mem hq)
      · rintro ⟨-, h⟩ q hq
        rcases List.mem_cons.mp hq with rfl | hq
        · exact List.mem_cons_self
        · exact List.mem_cons_of_mem _ (h q hq)
    · rw [if_neg hcount]
      constructor
      · intro h
        exact absurd (mem_replacedIn (h pair List.mem_cons_self)).1 hfresh
      · rintro ⟨hfound, -⟩
        exact absurd (matchCount_pos_iff.mpr hfound) hcount

end Engine

namespace SessionMap

variable {pairs : List (Str × Str)} {fake real : Str}

lemma live_importPairs (maxEntries ttl now : Nat) (pairs : List (Str × Str)) :
    ((SessionMap.new maxEntries ttl).importPairs pairs now).Live now fake real ↔
      (SessionMap.new maxEntries ttl).heldWith pairs fake = some real := by
  induction pairs using List.reverseRecOn with
  | nil =>
    refine iff_of_false ?_ nofun
    rintro ⟨entry, hentry, -⟩
    cases hentry
  | append_singleton pairs p ih =>
    rw [importPairs_concat, heldWith_concat]
    by_cases hfake : fake = p.1
    · rw [if_pos hfake, hfake, live_insertPair_self, Option.some.injEq]
    · rw [if_neg hfake, live_insertPair_of_ne hfake, ih]

lemma mem_of_heldWith {maxEntries ttl : Nat}
    (h : (SessionMap.new maxEntries ttl).heldWith pairs fake = some real) : (fake, real) ∈ pairs := by
  induction pairs using List.reverseRecOn with
  | nil => cases h
  | append_singleton pairs p ih =>
    rw [heldWith_concat] at h
    split at h
    · rename_i hfake
      obtain rfl := Option.some.inj h
      rw [hfake]
      exact List.mem_append_right _ List.mem_cons_self
    · exact List.mem_append_left _ (ih h)

lemma exists_heldWith (m : SessionMap) (h : fake ∈ pairs.map Prod.fst) :
    ∃ real, m.heldWith pairs fake = some real := by
  induction pairs using List.reverseRecOn with
  | nil => cases h
  | append_singleton pairs p ih =>
    rw [heldWith_concat]
    split
    · exact ⟨p.2, rfl⟩
    · rename_i hfake
      rw [List.map_append, List.mem_append] at h
      refine ih (h.resolve_right fun hmem => hfake ?_)
      simpa using hmem

lemma mem_entries_iff (ord : HashOrder) (m : SessionMap) :
    (fake, real) ∈ m.entries ord ↔ m.heldReal fake = some real := by
  unfold entries heldReal
  rw [List.mem_map, Option.map_eq_some_iff]
  constructor
  · rintro ⟨entry, hmem, heq⟩
    obtain ⟨rfl, rfl⟩ := Prod.mk.inj heq
    exact ⟨entry.2, AList.mem_lookup_iff.mpr ((ord.perm _).mem_iff.mp hmem), rfl⟩
  · rintro ⟨entry, hlook, rfl⟩
    exact ⟨⟨fake, entry⟩, (ord.perm _).mem_iff.mpr (AList.mem_lookup_iff.mp hlook), rfl⟩

end SessionMap

/-- Of two counts of a list where one property implies the other, the larger is the smaller only if
the properties agree. -/
lemma length_filter_eq_iff {α : Type} {f g : α → Bool} {l : List α}
    (h : ∀ a ∈ l, f a = true → g a = true) :
    (l.filter f).length = (l.filter g).length ↔ ∀ a ∈ l, g a = true → f a = true := by
  have hsublist : (l.filter f).Sublist (l.filter g) := by
    have hfilter : l.filter f = (l.filter g).filter f := by
      rw [List.filter_filter]
      apply List.filter_congr
      intro a ha
      cases hf : f a with
      | false => simp
      | true => simp [h a ha hf]
    rw [hfilter]
    exact List.filter_sublist
  constructor
  · intro hlen a ha hg
    have hmem : a ∈ l.filter f := by
      rw [hsublist.eq_of_length hlen]
      exact List.mem_filter.mpr ⟨ha, hg⟩
    exact (List.mem_filter.mp hmem).2
  · intro hback
    congr 1
    apply List.filter_congr
    intro a ha
    cases hf : f a with
    | true => rw [h a ha hf]
    | false =>
      cases hg : g a with
      | false => rfl
      | true => exact absurd (hback a ha hg) (by simp [hf])

namespace SessionContents

variable {c : SessionContents} {p : TextProcess} {fake real : Str}

lemma mem_pairs {entry : SessionPair} (h : entry ∈ c.entries) :
    (entry.fake, entry.real) ∈ c.pairs :=
  List.mem_map_of_mem (f := fun e : SessionPair => (e.fake, e.real)) h

lemma exists_entry_of_mem_pairs (h : (fake, real) ∈ c.pairs) :
    ∃ entry ∈ c.entries, entry.fake = fake ∧ entry.real = real := by
  obtain ⟨entry, hentry, heq⟩ := List.mem_map.mp h
  exact ⟨entry, hentry, Prod.mk.inj heq⟩

lemma realOf_mapFor : (c.mapFor p).realOf p.nowInstant fake = some real ↔
    (fake, real) ∈ (c.mapFor p).entries p.ord := by
  rw [SessionMap.realOf_eq_some, SessionMap.mem_entries_iff]
  unfold mapFor toMap
  rw [SessionMap.live_importPairs, SessionMap.heldReal_importPairs]

lemma mem_pairs_of_realOf (h : (c.mapFor p).realOf p.nowInstant fake = some real) :
    (fake, real) ∈ c.pairs := by
  rw [SessionMap.realOf_eq_some] at h
  unfold mapFor toMap at h
  rw [SessionMap.live_importPairs] at h
  exact SessionMap.mem_of_heldWith h

lemma exists_realOf (h : fake ∈ c.pairs.map Prod.fst) :
    ∃ real, (c.mapFor p).realOf p.nowInstant fake = some real := by
  obtain ⟨real, hreal⟩ := SessionMap.exists_heldWith (.new cliSessionMapCapacity
    (durationFromSecs (max (saturatingSub c.expiresAt p.nowEpoch) 1))) h
  refine ⟨real, SessionMap.realOf_eq_some.mpr ?_⟩
  unfold mapFor toMap
  exact (SessionMap.live_importPairs _ _ _ _).mpr hreal

/-- The pairs of the map whose fakes the pass goes through, in its order. -/
def candidates (c : SessionContents) (p : TextProcess) : List (Str × Str) :=
  ((c.mapFor p).entries p.ord).filter fun pair => contains p.input pair.1

lemma mem_candidates : (fake, real) ∈ c.candidates p ↔
    (c.mapFor p).realOf p.nowInstant fake = some real ∧ contains p.input fake = true := by
  rw [realOf_mapFor]
  exact List.mem_filter

lemma passReplaces_eq :
    Engine.passReplaces p.ord (c.mapFor p) p.input p.nowInstant =
      Engine.replacedIn ((c.mapFor p).realOf p.nowInstant) p.input
        ((c.candidates p).map Prod.fst) := by
  unfold Engine.passReplaces
  exact Engine.replacedPairs_eq _ _ _

lemma forall_mem_passReplaces : (∀ pair ∈ c.candidates p,
      pair ∈ Engine.passReplaces p.ord (c.mapFor p) p.input p.nowInstant) ↔
    Engine.AllFound p.input (c.candidates p) := by
  rw [passReplaces_eq]
  refine Engine.forall_mem_replacedIn Engine.nodup_candidateFakes ?_
  rintro ⟨fake, real⟩ hpair
  exact (mem_candidates.mp hpair).1

lemma candidate_of_mem_passReplaces
    (h : (fake, real) ∈ Engine.passReplaces p.ord (c.mapFor p) p.input p.nowInstant) :
    (fake, real) ∈ c.candidates p := by
  rw [passReplaces_eq] at h
  obtain ⟨hmem, hreal⟩ := Engine.mem_replacedIn h
  obtain ⟨⟨fake', real'⟩, hpair, rfl⟩ := List.mem_map.mp hmem
  exact mem_candidates.mpr ⟨hreal, (mem_candidates.mp hpair).2⟩

/-- All entries whose fakes are in the input are replaced exactly if nothing disturbs them. -/
lemma undisturbed_iff : c.Undisturbed p ↔ ∀ entry ∈ c.entries, contains p.input entry.fake = true →
    (entry.fake, entry.real) ∈
      Engine.passReplaces p.ord (c.mapFor p) p.input p.nowInstant := by
  constructor
  · intro h entry hentry hcontains
    obtain ⟨real, hreal⟩ : ∃ real, (c.mapFor p).realOf p.nowInstant entry.fake = some real :=
      exists_realOf (List.mem_map_of_mem (mem_pairs hentry))
    obtain ⟨entry', hentry', hfake, rfl⟩ := exists_entry_of_mem_pairs (mem_pairs_of_realOf hreal)
    rw [h.agree entry hentry entry' hentry' hcontains hfake.symm]
    exact forall_mem_passReplaces.mpr h.found _ (mem_candidates.mpr ⟨hreal, hcontains⟩)
  · intro h
    constructor
    · intro entry hentry entry' hentry' hcontains hfake
      have hcontains' : contains p.input entry'.fake = true := hfake ▸ hcontains
      have hreal := (mem_candidates.mp
        (candidate_of_mem_passReplaces (h entry hentry hcontains))).1
      have hreal' := (mem_candidates.mp
        (candidate_of_mem_passReplaces (h entry' hentry' hcontains'))).1
      rw [← hfake, hreal] at hreal'
      exact Option.some.inj hreal'
    · apply forall_mem_passReplaces.mp
      rintro ⟨fake, real⟩ hpair
      obtain ⟨hreal, hcontains⟩ := mem_candidates.mp hpair
      obtain ⟨entry, hentry, rfl, rfl⟩ := exists_entry_of_mem_pairs (mem_pairs_of_realOf hreal)
      exact h entry hentry hcontains

/-- The entries that are counted are those that are not replaced exactly if nothing disturbs
them. -/
lemma unused_eq_iff : c.unused p.input = (c.unreplaced p).length ↔ c.Undisturbed p := by
  have hcount : c.unused p.input =
      (c.entries.filter fun entry => !contains p.input entry.fake).length := by
    unfold unused
    have htotal := List.length_eq_length_filter_add
      (l := c.entries) fun entry => contains p.input entry.fake
    omega
  rw [hcount, undisturbed_iff]
  unfold unreplaced
  rw [length_filter_eq_iff]
  · refine forall₂_congr fun entry _ => ?_
    simp only [decide_eq_true_eq, Bool.not_eq_true', Bool.eq_false_iff]
    exact not_imp_not
  · intro entry _ habsent
    refine decide_eq_true fun hmem => ?_
    rw [(mem_candidates.mp (candidate_of_mem_passReplaces hmem)).2] at habsent
    cases habsent

end SessionContents

section Command

variable {X : Crates} {Y : FileCrates} {vaultPath path : PathBuf} {p : TextProcess} {m : Machine}
  {s s' : Moment} {result : CommandResult}

/-- The notice about discarded entries is left out if there are none. -/
lemma discarded_eq (warning : List CommandNotice)
    (hwarning : (warning.map CommandNotice.discardedCount).sum = 0) (restored count : Nat) :
    CommandResult.discarded ⟨0, warning ++ [.restored restored] ++
      if 0 < count then [.discarded count] else []⟩ = count := by
  have hrestored : (CommandNotice.restored restored).discardedCount = 0 := rfl
  unfold CommandResult.discarded
  simp only [List.map_append, List.sum_append, hwarning, List.map_cons, List.map_nil, hrestored]
  split_ifs with hcount
  · simp [CommandNotice.discardedCount]
  · simp only [List.map_nil, List.sum_cons, List.sum_nil]
    omega

lemma restoreSession_reports {engine : Engine} {existing : Option SessionContents} :
    Does (fun _ _ => True) (fun r _ => ∀ done, r = .ok done → ∃ c, existing = some c ∧
        CommandResult.discarded ⟨0, done.2⟩ = c.unused p.input)
      (Cli.restoreSession X p engine path existing) s := by
  unfold Cli.restoreSession
  split
  · exact holds_ret.mpr nofun
  · rename_i c
    dsimp only
    split
    · exact holds_ret.mpr nofun
    · refine Holds.bind (fun _ => rfl) (Holds.any.mono (fun _ _ h => h)
        fun wiped s₁ _ => holds_ret.mpr fun done hdone => ⟨c, rfl, ?_⟩)
      obtain rfl := Except.ok.inj hdone
      cases wiped with
      | ok u => exact discarded_eq [] rfl _ _
      | error e => exact discarded_eq [.wipeFailed e] rfl _ _

lemma afterLoad_reports (hcommand : p.command = .restore) {opened : OpenVault × Engine}
    {existing : Option SessionContents} :
    Does (fun _ _ => True) (fun r _ => ∀ result, r = .ok result → ∃ c, existing = some c ∧
        result.discarded = c.unused p.input)
      (Cli.afterLoad X Y p path opened existing) s := by
  unfold Cli.afterLoad
  rw [hcommand]
  refine Holds.andThen (fun _ => rfl) (restoreSession_reports.mono (fun _ _ h => h)
    fun r s₁ hr => ?_)
  cases r with
  | error stop => exact holds_ret.mpr nofun
  | ok done =>
    refine Holds.andThen (fun _ => rfl) (Holds.any.mono (fun _ _ h => h) fun r s₂ _ => ?_)
    cases r with
    | error stop => exact holds_ret.mpr nofun
    | ok u =>
      refine holds_ret.mpr fun result hresult => ?_
      obtain rfl := Except.ok.inj hresult
      exact hr done rfl

/-- A restore that succeeds has counted the entries that it has destroyed unreplaced exactly if no
two entries of its file and no two steps of its session pass are in each other's way. -/
theorem discarded_iff (hp : p.session = some path) (hcommand : p.command = .restore)
    (hreach : (Cli.runTextCommand X Y vaultPath p).Reaches Machine.faulty.logged (m, [])
      (.ret (.ok result)) s') :
    ∃ key c, (∀ k, m.keychain = some k → key = k) ∧
      LoadedAs X Y key (m.disk.content path.file) (some c) ∧
      (result.discarded = (c.unreplaced p).length ↔ c.Undisturbed p) := by
  obtain ⟨-, hnever⟩ | ⟨v, existing, hloaded⟩ := opening_or_loaded hp hreach
  · exact absurd rfl (hnever result)
  obtain ⟨engine, s₁, hopening, hkey, hfound, hrest⟩ := hloaded.exists_moment
  have hreports : Does _ _ (Cli.afterLoad X Y p path (v, engine) existing) s₁ :=
    afterLoad_reports hcommand
  obtain ⟨c, rfl, hdiscarded⟩ := holds_ret.mp (hreports.reaches hrest).2 result rfl
  refine ⟨v.vaultKey, c, hkey, ?_, ?_⟩
  · rcases hopening.content with hcontent | ⟨-, hnone⟩
    · rw [hcontent] at hfound
      exact hfound
    · obtain ⟨body, hbody, -⟩ := hfound
      rw [hnone] at hbody
      cases hbody
  · rw [hdiscarded]
    exact SessionContents.unused_eq_iff

/-- The theorem on a file with one pair. -/
theorem discarded_iff_piped : ∃ key c, (∀ k, pipedMachine.keychain = some k → key = k) ∧
    LoadedAs Crates.reference pipedFiles key (pipedMachine.disk.content pipedPath.file) (some c) ∧
    (CommandResult.discarded ⟨0, [.restored 1]⟩ = (c.unreplaced pipedProcess).length ↔
      c.Undisturbed pipedProcess) := by
  obtain ⟨history, hreach⟩ := run_reaches (W := Machine.faulty) Machine.exec (fun _ _ => .inl rfl)
    (Cli.runTextCommand Crates.reference pipedFiles emptyVaultPath pipedProcess) pipedMachine []
  exact discarded_iff rfl rfl hreach

def overlappingContents : SessionContents :=
  ⟨1, 0, 1800, [⟨"192.0.2.14".toList, "10.0.9.9".toList⟩,
    ⟨"192.0.2.141".toList, "10.10.10.10".toList⟩]⟩

def overlappingFiles : FileCrates :=
  .ofTables .padding [(VaultContents.default, sampleVaultText)]
    [(overlappingContents, utf8 "s".toList)]

def overlappingProcess : TextProcess := { pipedProcess with input := "192.0.2.141".toList }

/-- The restore reports no discarded entry, and has replaced the fake of one entry only. -/
theorem not_discarded_counted :
    LoadedAs Crates.reference overlappingFiles (Vector.replicate 32 0)
      (pipedMachine.disk.content pipedPath.file) (some overlappingContents) ∧
    ((Cli.runTextCommand Crates.reference overlappingFiles emptyVaultPath overlappingProcess).run
      Machine.exec pipedMachine).1 = .ok ⟨0, [.restored 1]⟩ ∧
    CommandResult.discarded ⟨0, [.restored 1]⟩ ≠
      (overlappingContents.unreplaced overlappingProcess).length := by
  refine ⟨⟨_, rfl, _, rfl, rfl⟩, by rfl, by decide⟩

end Command

end Invisibool
