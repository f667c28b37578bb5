import Invisibool.Format.Files
import Mathlib.Data.Set.Basic

/-!
# The two codecs

On what has been sealed the decoders undo the encoders. They never panic, and accept nothing but
what has been sealed for their own kind of file.
-/

namespace Invisibool
open Text Format

/-- One call of an encoder, with all it is given and the nonce it draws. -/
inductive SealCall
  | vault (vaultKey : VaultKey) (nonce : Nonce) (contents : VaultContents)
  | session (vaultKey : Bytes) (nonce : Nonce) (contents : SessionContents)

/-- The AEAD encryption that a call comes down to. -/
def SealCall.Makes (X : Crates) (Y : FileCrates) : SealCall → Sealing → Prop
  | vault vaultKey nonce contents, s => ∃ key json ciphertext,
    deriveAeadKey X vaultKey = .ok key ∧ Y.vaultToVec contents = some json ∧
      Y.aead.encrypt key nonce vaultHeader.bytes json = some ciphertext ∧
      s = ⟨key, nonce, vaultHeader.bytes, json, ciphertext⟩
  | session vaultKey nonce contents, s => ∃ key json ciphertext,
    deriveSessionAeadKey X vaultKey = .ok key ∧ Y.sessionToVec contents = some json ∧
      Y.aead.encrypt key nonce sessionHeader.bytes json = some ciphertext ∧
      s = ⟨key, nonce, sessionHeader.bytes, json, ciphertext⟩

/-- What has been sealed in the course of some calls. -/
def SealedBy (X : Crates) (Y : FileCrates) (calls : Set SealCall) (s : Sealing) : Prop :=
  ∃ c ∈ calls, c.Makes X Y s

variable {X : Crates} {Y : FileCrates} {calls : Set SealCall}

lemma headed_sealedBy : Headed (SealedBy X Y calls) [vaultHeader, sessionHeader] := by
  rintro s ⟨c, -, hmakes⟩
  cases c with
  | vault vaultKey nonce contents =>
    obtain ⟨key, json, ciphertext, -, -, -, rfl⟩ := hmakes
    exact ⟨vaultHeader, by simp, rfl⟩
  | session vaultKey nonce contents =>
    obtain ⟨key, json, ciphertext, -, -, -, rfl⟩ := hmakes
    exact ⟨sessionHeader, by simp, rfl⟩

lemma magic_ne : vaultHeader.magic ≠ sessionHeader.magic := by decide +kernel

lemma bytes_ne : vaultHeader.bytes ≠ sessionHeader.bytes := by
  intro h
  have htake := congrArg (List.take 16) h
  rw [Header.take_bytes, Header.take_bytes] at htake
  exact magic_ne (Vector.toList_inj.mp htake)

lemma distinct_headers : Distinct [vaultHeader, sessionHeader] := by
  intro h hh h' hh' hmagic
  simp only [List.mem_cons, List.not_mem_nil, or_false] at hh hh'
  rcases hh with rfl | rfl <;> rcases hh' with rfl | rfl
  · rfl
  · exact absurd hmagic magic_ne
  · exact absurd hmagic.symm magic_ne
  · rfl

lemma deriveAeadKey_isOk (hHkdf : X.HkdfLawful) (vaultKey : VaultKey) :
    ∃ key, deriveAeadKey X vaultKey = .ok key := by
  obtain ⟨key, hkey⟩ := Option.isSome_iff_exists.mp
    ((hHkdf.expand_isSome vaultKey.toList (utf8 "invisibool-vault-aead-v1".toList) 32).mpr
      (by omega))
  exact ⟨key, by rw [deriveAeadKey, hkey, expect_some]⟩

lemma deriveSessionAeadKey_isOk (hHkdf : X.HkdfLawful) (vaultKey : Bytes) :
    ∃ key, deriveSessionAeadKey X vaultKey = .ok key := by
  obtain ⟨key, hkey⟩ := Option.isSome_iff_exists.mp
    ((hHkdf.expand_isSome vaultKey (utf8 "invisibool-session-aead-v1".toList) 32).mpr (by omega))
  exact ⟨key, by rw [deriveSessionAeadKey, hkey, expect_some]⟩

lemma vault_of_sealedBy {s : Sealing} (hs : SealedBy X Y calls s)
    (haad : s.aad = vaultHeader.bytes) : ∃ vaultKey contents,
      .vault vaultKey s.nonce contents ∈ calls ∧ deriveAeadKey X vaultKey = .ok s.key ∧
      Y.vaultToVec contents = some s.message ∧
      Y.aead.encrypt s.key s.nonce vaultHeader.bytes s.message = some s.ciphertext := by
  obtain ⟨c, hc, hmakes⟩ := hs
  cases c with
  | vault vaultKey nonce contents =>
    obtain ⟨key, json, ciphertext, hkey, hjson, hct, rfl⟩ := hmakes
    exact ⟨vaultKey, contents, hc, hkey, hjson, hct⟩
  | session vaultKey nonce contents =>
    obtain ⟨key, json, ciphertext, -, -, -, rfl⟩ := hmakes
    exact absurd haad.symm bytes_ne

lemma session_of_sealedBy {s : Sealing} (hs : SealedBy X Y calls s)
    (haad : s.aad = sessionHeader.bytes) : ∃ vaultKey contents,
      .session vaultKey s.nonce contents ∈ calls ∧ deriveSessionAeadKey X vaultKey = .ok s.key ∧
      Y.sessionToVec contents = some s.message ∧
      Y.aead.encrypt s.key s.nonce sessionHeader.bytes s.message = some s.ciphertext := by
  obtain ⟨c, hc, hmakes⟩ := hs
  cases c with
  | vault vaultKey nonce contents =>
    obtain ⟨key, json, ciphertext, -, -, -, rfl⟩ := hmakes
    exact absurd haad bytes_ne
  | session vaultKey nonce contents =>
    obtain ⟨key, json, ciphertext, hkey, hjson, hct, rfl⟩ := hmakes
    exact ⟨vaultKey, contents, hc, hkey, hjson, hct⟩

/-! ### The encoders -/

lemma sealVault_eq_ok {vaultKey : VaultKey} {nonce : Nonce} {contents : VaultContents}
    {file : Bytes} :
    sealVault X Y vaultKey nonce contents = .ok (.ok file) ↔
      ∃ key json ciphertext, deriveAeadKey X vaultKey = .ok key ∧
        Y.vaultToVec contents = some json ∧
        Y.aead.encrypt key nonce vaultHeader.bytes json = some ciphertext ∧
        file = vaultHeader.bytes ++ nonce.toList ++ ciphertext := by
  unfold sealVault encryptVault sealFile
  cases Y.vaultToVec contents with
  | none => simp
  | some json =>
    cases deriveAeadKey X vaultKey with
    | error p => simp
    | ok key =>
      cases hct : Y.aead.encrypt key nonce vaultHeader.bytes json with
      | none => simp [hct]
      | some ciphertext => simp [hct, eq_comm]

lemma sealSession_eq_ok {vaultKey : Bytes} {nonce : Nonce} {contents : SessionContents}
    {file : Bytes} :
    sealSession X Y vaultKey nonce contents = .ok (.ok file) ↔
      ∃ key json ciphertext, deriveSessionAeadKey X vaultKey = .ok key ∧
        Y.sessionToVec contents = some json ∧
        Y.aead.encrypt key nonce sessionHeader.bytes json = some ciphertext ∧
        file = sessionHeader.bytes ++ nonce.toList ++ ciphertext := by
  unfold sealSession encryptSessionBytes sealFile
  cases Y.sessionToVec contents with
  | none => simp
  | some json =>
    cases deriveSessionAeadKey X vaultKey with
    | error p => simp
    | ok key =>
      cases hct : Y.aead.encrypt key nonce sessionHeader.bytes json with
      | none => simp [hct]
      | some ciphertext => simp [hct, eq_comm]

/-! ### The decoders -/

/-- A vault file is what its opening comes to. -/
lemma decryptVault_eq_ok {vaultKey : VaultKey} {file : Bytes} {contents : VaultContents} :
    decryptVault X Y vaultKey file = .ok (.ok contents) ↔
      ∃ json, openFile Y.aead vaultHeader (deriveAeadKey X vaultKey) file = .ok (.ok json) ∧
        Y.vaultFromSlice json = some contents := by
  unfold decryptVault
  cases openFile Y.aead vaultHeader (deriveAeadKey X vaultKey) file with
  | error p => simp
  | ok r =>
    cases r with
    | error e => simp
    | ok json => cases hjson : Y.vaultFromSlice json <;> simp [hjson]

lemma decryptVault_eq_error {vaultKey : VaultKey} {file : Bytes} {e : OpenError}
    (h : openFile Y.aead vaultHeader (deriveAeadKey X vaultKey) file = .ok (.error e)) :
    decryptVault X Y vaultKey file = .ok (.error (.ofOpen e)) := by
  unfold decryptVault
  rw [h, ok_bind]

lemma decryptVault_isOk (hHkdf : X.HkdfLawful) (vaultKey : VaultKey) (file : Bytes) :
    ∃ r, decryptVault X Y vaultKey file = .ok r := by
  obtain ⟨key, hkey⟩ := deriveAeadKey_isOk hHkdf vaultKey
  obtain ⟨r, hr⟩ := openFile_isOk Y.aead vaultHeader key file
  unfold decryptVault
  rw [hkey, hr, ok_bind]
  cases r with
  | error e => exact ⟨_, rfl⟩
  | ok json =>
    cases hjson : Y.vaultFromSlice json with
    | none => exact ⟨.error .serde, by simp [hjson]⟩
    | some contents => exact ⟨.ok contents, by simp [hjson]⟩

lemma decryptSessionBytes_eq_ok {vaultKey file : Bytes} {now : UInt64}
    {contents : SessionContents} :
    decryptSessionBytes X Y vaultKey file now = .ok (.ok contents) ↔
      ∃ json, openFile Y.aead sessionHeader (deriveSessionAeadKey X vaultKey) file =
          .ok (.ok json) ∧ Y.sessionFromSlice json = some contents ∧ now < contents.expiresAt := by
  unfold decryptSessionBytes
  cases openFile Y.aead sessionHeader (deriveSessionAeadKey X vaultKey) file with
  | error p => simp
  | ok r =>
    cases r with
    | error e => simp
    | ok json =>
      cases hjson : Y.sessionFromSlice json with
      | none => simp [hjson]
      | some c =>
        by_cases hexp : c.expiresAt ≤ now
        · simp only [ok_bind, hjson, if_pos hexp, Except.ok.injEq, reduceCtorEq, false_iff,
            exists_eq_left', Option.some.injEq]
          rintro ⟨rfl, hlt⟩
          exact absurd hexp (UInt64.not_le.mpr hlt)
        · simp only [ok_bind, hjson, if_neg hexp, Except.ok.injEq, exists_eq_left',
            Option.some.injEq]
          constructor
          · rintro rfl
            exact ⟨rfl, UInt64.not_le.mp hexp⟩
          · exact And.left

lemma decryptSessionBytes_eq_error {vaultKey file : Bytes} {e : OpenError}
    (h : openFile Y.aead sessionHeader (deriveSessionAeadKey X vaultKey) file = .ok (.error e))
    (now : UInt64) : decryptSessionBytes X Y vaultKey file now = .ok (.error (.ofOpen e)) := by
  unfold decryptSessionBytes
  rw [h, ok_bind]

lemma decryptSessionBytes_isOk (hHkdf : X.HkdfLawful) (vaultKey file : Bytes) (now : UInt64) :
    ∃ r, decryptSessionBytes X Y vaultKey file now = .ok r := by
  obtain ⟨key, hkey⟩ := deriveSessionAeadKey_isOk hHkdf vaultKey
  obtain ⟨r, hr⟩ := openFile_isOk Y.aead sessionHeader key file
  unfold decryptSessionBytes
  rw [hkey, hr, ok_bind]
  cases r with
  | error e => exact ⟨_, rfl⟩
  | ok json =>
    cases hjson : Y.sessionFromSlice json with
    | none => exact ⟨.error .serde, by simp [hjson]⟩
    | some contents =>
      by_cases hexp : contents.expiresAt ≤ now
      · exact ⟨.error (.expired contents.expiresAt), by simp [hjson, hexp]⟩
      · exact ⟨.ok contents, by simp [hjson, hexp]⟩

/-! ### Both codecs -/

/-- The encryption behind a vault file. -/
lemma decryptVault_of_undone {vaultKey : VaultKey} {nonce : Nonce} {contents : VaultContents}
    {file : Bytes} (hserde : Y.SerdeLawful) (hA : Y.aead.Undone)
    (hseal : sealVault X Y vaultKey nonce contents = .ok (.ok file)) :
    decryptVault X Y vaultKey file = .ok (.ok contents) := by
  obtain ⟨key, json, ciphertext, hkey, hjson, hct, rfl⟩ := sealVault_eq_ok.mp hseal
  rw [decryptVault_eq_ok, hkey]
  exact ⟨json, openFile_encrypt hA hct, hserde.vault contents json hjson⟩

lemma sealing_of_sealVault {vaultKey : VaultKey} {nonce : Nonce} {contents : VaultContents}
    {file : Bytes} (hcall : .vault vaultKey nonce contents ∈ calls)
    (hseal : sealVault X Y vaultKey nonce contents = .ok (.ok file)) :
    ∃ s, SealedBy X Y calls s ∧ deriveAeadKey X vaultKey = .ok s.key ∧
      s.aad = vaultHeader.bytes ∧ Y.vaultToVec contents = some s.message ∧ s.file = file := by
  obtain ⟨key, json, ciphertext, hkey, hjson, hct, rfl⟩ := sealVault_eq_ok.mp hseal
  exact ⟨_, ⟨_, hcall, key, json, ciphertext, hkey, hjson, hct, rfl⟩, hkey, rfl, hjson, rfl⟩

lemma sealing_of_sealSession {vaultKey : Bytes} {nonce : Nonce} {contents : SessionContents}
    {file : Bytes} (hcall : .session vaultKey nonce contents ∈ calls)
    (hseal : sealSession X Y vaultKey nonce contents = .ok (.ok file)) :
    ∃ s, SealedBy X Y calls s ∧ deriveSessionAeadKey X vaultKey = .ok s.key ∧
      s.aad = sessionHeader.bytes ∧ Y.sessionToVec contents = some s.message ∧
      s.file = file := by
  obtain ⟨key, json, ciphertext, hkey, hjson, hct, rfl⟩ := sealSession_eq_ok.mp hseal
  exact ⟨_, ⟨_, hcall, key, json, ciphertext, hkey, hjson, hct, rfl⟩, hkey, rfl, hjson, rfl⟩

lemma vaultHeader_mem : vaultHeader ∈ [vaultHeader, sessionHeader] := by simp

lemma sessionHeader_mem : sessionHeader ∈ [vaultHeader, sessionHeader] := by simp

/-- What is wrong with a sealed file in which a byte has been changed. -/
def changedAt (i : Nat) (b : UInt8) : OpenError :=
  if i < 16 then .wrongMagic else if i = 16 then .unsupportedVersion b else .aead

section Vault

variable {vaultKey : VaultKey} {nonce : Nonce} {contents : VaultContents} {file : Bytes}

lemma decryptVault_sealVault (hserde : Y.SerdeLawful)
    (hideal : Y.aead.Ideal (SealedBy X Y calls)) (hcall : .vault vaultKey nonce contents ∈ calls)
    (hseal : sealVault X Y vaultKey nonce contents = .ok (.ok file)) :
    decryptVault X Y vaultKey file = .ok (.ok contents) := by
  obtain ⟨s, hs, hkey, haad, hjson, hfile⟩ := sealing_of_sealVault hcall hseal
  rw [decryptVault_eq_ok, hkey]
  refine ⟨s.message, ?_, hserde.vault contents s.message hjson⟩
  rw [openFile_eq_ok hideal headed_sealedBy distinct_headers vaultHeader_mem]
  exact ⟨s, hs, rfl, haad, rfl, hfile⟩

/-- What the decoder accepts has been sealed as a vault file. -/
lemma exists_of_decryptVault (hHkdf : X.HkdfLawful) (hserde : Y.SerdeLawful)
    (hideal : Y.aead.Ideal (SealedBy X Y calls))
    (h : decryptVault X Y vaultKey file = .ok (.ok contents)) :
    ∃ key nonce json ciphertext, deriveAeadKey X vaultKey = .ok key ∧
      Y.vaultToVec contents = some json ∧
      Y.aead.encrypt key nonce vaultHeader.bytes json = some ciphertext ∧
      file = vaultHeader.bytes ++ Vector.toList (nonce : Nonce) ++ ciphertext := by
  obtain ⟨key, hkey⟩ := deriveAeadKey_isOk hHkdf vaultKey
  obtain ⟨json, hopen, hjson⟩ := decryptVault_eq_ok.mp h
  rw [hkey, openFile_eq_ok hideal headed_sealedBy distinct_headers vaultHeader_mem] at hopen
  obtain ⟨s, hs, rfl, haad, rfl, rfl⟩ := hopen
  obtain ⟨vaultKey', contents', -, -, hjson', hct⟩ := vault_of_sealedBy hs haad
  have heq : contents' = contents :=
    Option.some.inj ((hserde.vault contents' s.message hjson').symm.trans hjson)
  exact ⟨s.key, s.nonce, s.message, s.ciphertext, hkey, heq ▸ hjson', hct,
    by rw [Sealing.file, haad]⟩

lemma decryptVault_set (hideal : Y.aead.Ideal (SealedBy X Y calls))
    (hcall : .vault vaultKey nonce contents ∈ calls)
    (hseal : sealVault X Y vaultKey nonce contents = .ok (.ok file)) {i : Nat} {b : UInt8}
    (hi : i < file.length) (hb : file[i]? ≠ some b)
    (hfresh : 20 ≤ i → Fresh (SealedBy X Y calls)) :
    decryptVault X Y vaultKey (file.set i b) = .ok (.error (.ofOpen (changedAt i b))) := by
  obtain ⟨s, hs, hkey, haad, -, rfl⟩ := sealing_of_sealVault hcall hseal
  apply decryptVault_eq_error
  rw [hkey]
  exact openFile_set hideal headed_sealedBy distinct_headers vaultHeader_mem hs haad hi hb hfresh

end Vault

section Session

variable {vaultKey file : Bytes} {nonce : Nonce} {contents : SessionContents} {now : UInt64}

lemma decryptSessionBytes_sealSession (hserde : Y.SerdeLawful)
    (hideal : Y.aead.Ideal (SealedBy X Y calls))
    (hcall : .session vaultKey nonce contents ∈ calls)
    (hseal : sealSession X Y vaultKey nonce contents = .ok (.ok file))
    (hnow : now < contents.expiresAt) :
    decryptSessionBytes X Y vaultKey file now = .ok (.ok contents) := by
  obtain ⟨s, hs, hkey, haad, hjson, hfile⟩ := sealing_of_sealSession hcall hseal
  rw [decryptSessionBytes_eq_ok, hkey]
  refine ⟨s.message, ?_, hserde.session contents s.message hjson, hnow⟩
  rw [openFile_eq_ok hideal headed_sealedBy distinct_headers sessionHeader_mem]
  exact ⟨s, hs, rfl, haad, rfl, hfile⟩

/-- What the decoder accepts has been sealed as a session file. -/
lemma exists_of_decryptSessionBytes (hHkdf : X.HkdfLawful) (hserde : Y.SerdeLawful)
    (hideal : Y.aead.Ideal (SealedBy X Y calls))
    (h : decryptSessionBytes X Y vaultKey file now = .ok (.ok contents)) :
    ∃ key nonce json ciphertext, deriveSessionAeadKey X vaultKey = .ok key ∧
      Y.sessionToVec contents = some json ∧
      Y.aead.encrypt key nonce sessionHeader.bytes json = some ciphertext ∧
      file = sessionHeader.bytes ++ Vector.toList (nonce : Nonce) ++ ciphertext := by
  obtain ⟨key, hkey⟩ := deriveSessionAeadKey_isOk hHkdf vaultKey
  obtain ⟨json, hopen, hjson, -⟩ := decryptSessionBytes_eq_ok.mp h
  rw [hkey, openFile_eq_ok hideal headed_sealedBy distinct_headers sessionHeader_mem] at hopen
  obtain ⟨s, hs, rfl, haad, rfl, rfl⟩ := hopen
  obtain ⟨vaultKey', contents', -, -, hjson', hct⟩ := session_of_sealedBy hs haad
  have heq : contents' = contents :=
    Option.some.inj ((hserde.session contents' s.message hjson').symm.trans hjson)
  exact ⟨s.key, s.nonce, s.message, s.ciphertext, hkey, heq ▸ hjson', hct,
    by rw [Sealing.file, haad]⟩

lemma decryptSessionBytes_set (hideal : Y.aead.Ideal (SealedBy X Y calls))
    (hcall : .session vaultKey nonce contents ∈ calls)
    (hseal : sealSession X Y vaultKey nonce contents = .ok (.ok file)) {i : Nat} {b : UInt8}
    (hi : i < file.length) (hb : file[i]? ≠ some b)
    (hfresh : 20 ≤ i → Fresh (SealedBy X Y calls)) (now : UInt64) :
    decryptSessionBytes X Y vaultKey (file.set i b) now =
      .ok (.error (.ofOpen (changedAt i b))) := by
  obtain ⟨s, hs, hkey, haad, -, rfl⟩ := sealing_of_sealSession hcall hseal
  refine decryptSessionBytes_eq_error ?_ now
  rw [hkey]
  exact openFile_set hideal headed_sealedBy distinct_headers sessionHeader_mem hs haad hi hb hfresh

end Session

/-- A file that has been sealed is long enough, and its first bytes say what it is. -/
lemma sealed_parts (hideal : Y.aead.Ideal (SealedBy X Y calls)) {h : Header} {key json : Bytes}
    {nonce : Nonce} {ciphertext : Bytes}
    (hct : Y.aead.encrypt key nonce h.bytes json = some ciphertext) :
    60 ≤ (h.bytes ++ nonce.toList ++ ciphertext).length ∧
      (h.bytes ++ nonce.toList ++ ciphertext).take 16 = h.magic.toList := by
  constructor
  · rw [length_parts Header.length_bytes, hideal.tagged _ _ _ _ _ hct]
    unfold aadLen nonceLen tagLen
    omega
  · rw [take_parts Header.length_bytes, Header.take_bytes]

/-- What the two decoders do, relative to the calls that have sealed something. -/
structure Codecs (X : Crates) (Y : FileCrates) (calls : Set SealCall) : Prop where
  /-- On what has been sealed the decoders undo the encoders. -/
  vault_roundTrip : ∀ vaultKey nonce contents file, .vault vaultKey nonce contents ∈ calls →
    sealVault X Y vaultKey nonce contents = .ok (.ok file) →
      decryptVault X Y vaultKey file = .ok (.ok contents)
  session_roundTrip : ∀ vaultKey nonce contents file now,
    .session vaultKey nonce contents ∈ calls →
    sealSession X Y vaultKey nonce contents = .ok (.ok file) → now < contents.expiresAt →
      decryptSessionBytes X Y vaultKey file now = .ok (.ok contents)
  /-- They never panic. -/
  vault_total : ∀ vaultKey file, ∃ r, decryptVault X Y vaultKey file = .ok r
  session_total : ∀ vaultKey file now, ∃ r, decryptSessionBytes X Y vaultKey file now = .ok r
  /-- They accept a header of their own kind, a nonce and sealed JSON, and nothing else. -/
  vault_accepts : ∀ vaultKey file contents,
    decryptVault X Y vaultKey file = .ok (.ok contents) →
      ∃ key nonce json ciphertext, deriveAeadKey X vaultKey = .ok key ∧
        Y.vaultToVec contents = some json ∧
        Y.aead.encrypt key nonce vaultHeader.bytes json = some ciphertext ∧
        file = vaultHeader.bytes ++ nonce.toList ++ ciphertext
  session_accepts : ∀ vaultKey file now contents,
    decryptSessionBytes X Y vaultKey file now = .ok (.ok contents) →
      ∃ key nonce json ciphertext, deriveSessionAeadKey X vaultKey = .ok key ∧
        Y.sessionToVec contents = some json ∧
        Y.aead.encrypt key nonce sessionHeader.bytes json = some ciphertext ∧
        file = sessionHeader.bytes ++ nonce.toList ++ ciphertext
  /-- Short files, other magic bytes and other versions are reported before any decryption:
  whatever AEAD and JSON parser there may be. -/
  short : ∀ Y' : FileCrates, ∀ file, file.length < 60 →
    (∀ vaultKey, decryptVault X Y' vaultKey file = .ok (.error .truncatedFile)) ∧
      ∀ vaultKey now, decryptSessionBytes X Y' vaultKey file now = .ok (.error .truncatedFile)
  vault_header : ∀ Y' : FileCrates, ∀ vaultKey file, 60 ≤ file.length →
    (file.take 16 ≠ vaultHeader.magic.toList →
      decryptVault X Y' vaultKey file = .ok (.error .badMagic)) ∧
    (file.take 16 = vaultHeader.magic.toList → file.getD 16 0 ≠ 1 →
      decryptVault X Y' vaultKey file = .ok (.error (.unsupportedVersion (file.getD 16 0))))
  session_header : ∀ Y' : FileCrates, ∀ vaultKey file now, 60 ≤ file.length →
    (file.take 16 ≠ sessionHeader.magic.toList →
      decryptSessionBytes X Y' vaultKey file now = .ok (.error .notASessionFile)) ∧
    (file.take 16 = sessionHeader.magic.toList → file.getD 16 0 ≠ 1 →
      decryptSessionBytes X Y' vaultKey file now =
        .ok (.error (.unsupportedVersion (file.getD 16 0))))
  /-- A sealed file in which a byte has been changed is rejected, wherever the byte is. -/
  vault_changed : ∀ vaultKey nonce contents file, .vault vaultKey nonce contents ∈ calls →
    sealVault X Y vaultKey nonce contents = .ok (.ok file) →
    ∀ i b, i < file.length → file[i]? ≠ some b → (20 ≤ i → Fresh (SealedBy X Y calls)) →
      decryptVault X Y vaultKey (file.set i b) = .ok (.error (.ofOpen (changedAt i b)))
  session_changed : ∀ vaultKey nonce contents file, .session vaultKey nonce contents ∈ calls →
    sealSession X Y vaultKey nonce contents = .ok (.ok file) →
    ∀ i b, i < file.length → file[i]? ≠ some b → (20 ≤ i → Fresh (SealedBy X Y calls)) →
      ∀ now, decryptSessionBytes X Y vaultKey (file.set i b) now =
        .ok (.error (.ofOpen (changedAt i b)))
  /-- A file of the other kind is rejected. -/
  vault_other : ∀ vaultKey nonce contents file,
    sealSession X Y vaultKey nonce contents = .ok (.ok file) →
      ∀ vaultKey', decryptVault X Y vaultKey' file = .ok (.error .badMagic)
  session_other : ∀ vaultKey nonce contents file,
    sealVault X Y vaultKey nonce contents = .ok (.ok file) →
      ∀ vaultKey' now, decryptSessionBytes X Y vaultKey' file now =
        .ok (.error .notASessionFile)

/-- With an AEAD that opens only what these calls have sealed, and a JSON parser that undoes the
writer, the two codecs are correct. -/
theorem codecs (hHkdf : X.HkdfLawful) (hserde : Y.SerdeLawful)
    (hideal : Y.aead.Ideal (SealedBy X Y calls)) : Codecs X Y calls where
  vault_roundTrip _ _ _ _ hcall hseal := decryptVault_sealVault hserde hideal hcall hseal
  session_roundTrip _ _ _ _ _ hcall hseal hnow :=
    decryptSessionBytes_sealSession hserde hideal hcall hseal hnow
  vault_total := decryptVault_isOk hHkdf
  session_total := decryptSessionBytes_isOk hHkdf
  vault_accepts _ _ _ h := exists_of_decryptVault hHkdf hserde hideal h
  session_accepts _ _ _ _ h := exists_of_decryptSessionBytes hHkdf hserde hideal h
  short Y' file hshort := by
    constructor
    · intro vaultKey
      exact decryptVault_eq_error (openFile_of_short hshort _)
    · intro vaultKey now
      exact decryptSessionBytes_eq_error (openFile_of_short hshort _) now
  vault_header Y' vaultKey file hlen := by
    constructor
    · intro hmagic
      exact decryptVault_eq_error (openFile_of_magic hlen hmagic _)
    · intro hmagic hversion
      exact decryptVault_eq_error (openFile_of_version hlen hmagic hversion _)
  session_header Y' vaultKey file now hlen := by
    constructor
    · intro hmagic
      exact decryptSessionBytes_eq_error (openFile_of_magic hlen hmagic _) now
    · intro hmagic hversion
      exact decryptSessionBytes_eq_error (openFile_of_version hlen hmagic hversion _) now
  vault_changed _ _ _ _ hcall hseal _ _ hi hb hfresh :=
    decryptVault_set hideal hcall hseal hi hb hfresh
  session_changed _ _ _ _ hcall hseal _ _ hi hb hfresh :=
    decryptSessionBytes_set hideal hcall hseal hi hb hfresh
  vault_other vaultKey nonce contents file hseal vaultKey' := by
    obtain ⟨key, json, ciphertext, -, -, hct, rfl⟩ := sealSession_eq_ok.mp hseal
    obtain ⟨hlen, hmagic⟩ := sealed_parts hideal hct
    refine decryptVault_eq_error (openFile_of_magic hlen ?_ _)
    rw [hmagic]
    exact fun heq => magic_ne (Vector.toList_inj.mp heq.symm)
  session_other vaultKey nonce contents file hseal vaultKey' now := by
    obtain ⟨key, json, ciphertext, -, -, hct, rfl⟩ := sealVault_eq_ok.mp hseal
    obtain ⟨hlen, hmagic⟩ := sealed_parts hideal hct
    refine decryptSessionBytes_eq_error (openFile_of_magic hlen ?_ _) now
    rw [hmagic]
    exact fun heq => magic_ne (Vector.toList_inj.mp heq)

/-! ### One file of each kind -/

/-- The empty vault, and an empty session of the first second of the epoch. -/
def sampleCalls : List SealCall :=
  [.vault (Vector.replicate 32 0) (Vector.replicate 24 1) VaultContents.default,
    .session (List.replicate 32 0) (Vector.replicate 24 2) (SessionContents.newAt 0)]

def sampleVaultText : Bytes := utf8 "\x7b\"schema_version\":1,\"entries\":[]\x7d".toList

def sampleSessionText : Bytes :=
  utf8 ("\x7b\"schema_version\":1,\"created_at\":0,\"expires_at\":1800," ++
    "\"entries\":[]\x7d").toList

def sampleLog : List Sealing :=
  [⟨List.replicate 32 0, Vector.replicate 24 1, vaultHeader.bytes, sampleVaultText,
      sampleVaultText ++ List.replicate tagLen 0⟩,
    ⟨List.replicate 32 0, Vector.replicate 24 2, sessionHeader.bytes, sampleSessionText,
      sampleSessionText ++ List.replicate tagLen 0⟩]

def sampleCrates : FileCrates :=
  .ofTables (.recording sampleLog) [(VaultContents.default, sampleVaultText)]
    [(SessionContents.newAt 0, sampleSessionText)]

lemma sampleCrates_sealedBy (s : Sealing) :
    SealedBy Crates.reference sampleCrates {c | c ∈ sampleCalls} s ↔ s ∈ sampleLog := by
  have hvault : sampleCrates.vaultToVec VaultContents.default = some sampleVaultText := by rfl
  have hsession : sampleCrates.sessionToVec (SessionContents.newAt 0) =
      some sampleSessionText := by rfl
  constructor
  · rintro ⟨c, hc, hmakes⟩
    simp only [sampleCalls, Set.mem_ofPred_eq, List.mem_cons, List.not_mem_nil, or_false] at hc
    rcases hc with rfl | rfl
    · obtain ⟨key, json, ciphertext, hkey, hjson, hct, rfl⟩ := hmakes
      obtain rfl := Option.some.inj (hvault.symm.trans hjson)
      obtain rfl := Except.ok.inj hkey
      obtain rfl := Option.some.inj hct
      exact List.mem_cons_self
    · obtain ⟨key, json, ciphertext, hkey, hjson, hct, rfl⟩ := hmakes
      obtain rfl := Option.some.inj (hsession.symm.trans hjson)
      obtain rfl := Except.ok.inj hkey
      obtain rfl := Option.some.inj hct
      exact List.mem_cons_of_mem _ List.mem_cons_self
  · intro hs
    simp only [sampleLog, List.mem_cons, List.not_mem_nil, or_false] at hs
    rcases hs with rfl | rfl
    · exact ⟨_, List.mem_cons_self, _, _, _, rfl, hvault, rfl, rfl⟩
    · exact ⟨_, List.mem_cons_of_mem _ List.mem_cons_self, _, _, _, rfl, hsession, rfl, rfl⟩

/-- The theorem on the two files, which an AEAD has sealed and nothing else. -/
theorem codecs_sample : Codecs Crates.reference sampleCrates {c | c ∈ sampleCalls} := by
  refine codecs Crates.reference_hkdfLawful
    (FileCrates.ofTables_serdeLawful (by simp) (by simp)) ?_
  have hlog : (SealedBy Crates.reference sampleCrates {c | c ∈ sampleCalls}) = (· ∈ sampleLog) := by
    funext s
    exact propext (sampleCrates_sealedBy s)
  rw [hlog]
  exact Aead.recording_ideal (by simp [sampleLog])

end Invisibool
