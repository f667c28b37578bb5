import Invisibool.Text.Str

/-!
# Sealed files

A sealed file is a header, a nonce and the ciphertext of an AEAD. The header is magic bytes, a
version and reserved bytes, and all of it is the associated data of the ciphertext. What an
ideal AEAD opens is given by the log of what has been sealed.
-/

namespace Format
open Text

abbrev Bytes := List UInt8

abbrev Nonce := Vector UInt8 24

/-- `&bytes[i..j]`. -/
def sliceBytes (bytes : Bytes) (i j : Nat) : Outcome Bytes :=
  if i ≤ j ∧ j ≤ bytes.length then .ok ((bytes.take j).drop i) else .error .index

/-- `<&[u8; 24]>::try_from`. -/
def toNonce (bytes : Bytes) : Option Nonce :=
  if h : bytes.length = 24 then some ⟨bytes.toArray, by simpa using h⟩ else none

structure Header where
  magic : Vector UInt8 16
  version : UInt8
  reserved : Vector UInt8 3
  deriving DecidableEq

def Header.bytes (h : Header) : Bytes := h.magic.toList ++ [h.version] ++ h.reserved.toList

/-- Encryption of a message and decryption of a ciphertext, each with a key, a nonce and the
associated data. -/
structure Aead where
  encrypt : Bytes → Nonce → Bytes → Bytes → Option Bytes
  decrypt : Bytes → Nonce → Bytes → Bytes → Option Bytes

inductive OpenError
  | truncated
  | wrongMagic
  | unsupportedVersion (version : UInt8)
  | aead
  deriving DecidableEq, Repr

def aadLen : Nat := 20
def nonceLen : Nat := 24
def tagLen : Nat := 16

def sealFile (A : Aead) (h : Header) (key : Bytes) (nonce : Nonce) (message : Bytes) :
    Option Bytes :=
  (A.encrypt key nonce h.bytes message).map fun ciphertext =>
    h.bytes ++ nonce.toList ++ ciphertext

/-- The header is checked before the key is derived. The reserved bytes are not: they are part
of the associated data. -/
def openFile (A : Aead) (h : Header) (deriveKey : Outcome Bytes) (file : Bytes) :
    Outcome (Except OpenError Bytes) :=
  if file.length < aadLen + nonceLen + tagLen then .ok (.error .truncated)
  else do
    let magic ← sliceBytes file 0 16
    if magic ≠ h.magic.toList then .ok (.error .wrongMagic)
    else do
      let version ← at? file 16
      if version ≠ h.version then .ok (.error (.unsupportedVersion version))
      else do
        let aad ← sliceBytes file 0 aadLen
        let nonceBytes ← sliceBytes file aadLen (aadLen + nonceLen)
        let nonce ← expect (toNonce nonceBytes) "slice length checked above"
        let ciphertext ← sliceBytes file (aadLen + nonceLen) file.length
        let key ← deriveKey
        match A.decrypt key nonce aad ciphertext with
        | none => .ok (.error .aead)
        | some message => .ok (.ok message)

/-- One encryption that has been made, with its result. -/
structure Sealing where
  key : Bytes
  nonce : Nonce
  aad : Bytes
  message : Bytes
  ciphertext : Bytes
  deriving DecidableEq

def Sealing.file (s : Sealing) : Bytes := s.aad ++ s.nonce.toList ++ s.ciphertext

/-- The AEAD has made these sealings, appends a tag, and opens nothing but what it has sealed
under the same key, nonce and associated data. -/
structure Aead.Ideal (A : Aead) (log : Sealing → Prop) : Prop where
  sealed : ∀ s, log s → A.encrypt s.key s.nonce s.aad s.message = some s.ciphertext
  tagged : ∀ key nonce aad message ciphertext,
    A.encrypt key nonce aad message = some ciphertext → ciphertext.length = message.length + tagLen
  opens_iff : ∀ key nonce aad message ciphertext,
    A.decrypt key nonce aad ciphertext = some message ↔ log ⟨key, nonce, aad, message, ciphertext⟩

/-- Decryption undoes encryption, and every ciphertext has room for a tag. -/
structure Aead.Undone (A : Aead) : Prop where
  decrypts : ∀ key nonce aad message ciphertext,
    A.encrypt key nonce aad message = some ciphertext →
      A.decrypt key nonce aad ciphertext = some message
  tag_le : ∀ key nonce aad message ciphertext,
    A.encrypt key nonce aad message = some ciphertext → tagLen ≤ ciphertext.length

/-- Under one key no nonce is used twice, and no ciphertext comes about twice. -/
def Fresh (log : Sealing → Prop) : Prop :=
  ∀ s s', log s → log s' → s.key = s'.key →
    s.nonce = s'.nonce ∨ s.ciphertext = s'.ciphertext → s = s'

/-- Everything has been sealed with one of these headers. -/
def Headed (log : Sealing → Prop) (headers : List Header) : Prop :=
  ∀ s, log s → ∃ h ∈ headers, s.aad = h.bytes

variable {A : Aead} {h : Header} {key : Bytes} {nonce : Nonce} {aad ciphertext file : Bytes}

@[simp] lemma Header.length_bytes : h.bytes.length = aadLen := by
  simp [Header.bytes, aadLen]

@[simp] lemma Header.take_bytes : h.bytes.take 16 = h.magic.toList := by
  simp [Header.bytes]

@[simp] lemma Header.getElem?_bytes : h.bytes[16]? = some h.version := by
  simp [Header.bytes]

lemma toNonce_toList : toNonce nonce.toList = some nonce := by
  unfold toNonce
  rw [dif_pos (by simp)]
  congr 1

lemma sliceBytes_append {a b c : Bytes} {i j : Nat} (hi : a.length = i)
    (hj : a.length + b.length = j) : sliceBytes (a ++ b ++ c) i j = .ok b := by
  subst hi hj
  unfold sliceBytes
  rw [if_pos (by simp), ← List.length_append, List.take_left, List.drop_left]

/-- A file that is long enough has its three parts. -/
lemma exists_parts (file : Bytes) (hlen : aadLen + nonceLen ≤ file.length) :
    ∃ aad nonce ciphertext, aad.length = aadLen ∧
      file = aad ++ Vector.toList (nonce : Nonce) ++ ciphertext := by
  have hnonce : ((file.drop aadLen).take nonceLen).length = nonceLen := by
    rw [List.length_take, List.length_drop]
    omega
  refine ⟨file.take aadLen, ⟨((file.drop aadLen).take nonceLen).toArray, hnonce⟩,
    (file.drop aadLen).drop nonceLen, ?_, ?_⟩
  · rw [List.length_take]
    omega
  · change file = file.take aadLen ++ (file.drop aadLen).take nonceLen ++ _
    rw [List.append_assoc, List.take_append_drop, List.take_append_drop]

lemma length_parts (haad : aad.length = aadLen) :
    (aad ++ nonce.toList ++ ciphertext).length = aadLen + nonceLen + ciphertext.length := by
  rw [List.length_append, List.length_append, haad, Vector.length_toList]
  rfl

lemma take_parts (haad : aad.length = aadLen) :
    (aad ++ nonce.toList ++ ciphertext).take 16 = aad.take 16 := by
  rw [List.append_assoc, List.take_append_of_le_length (by rw [haad]; decide)]

lemma getD_parts (haad : aad.length = aadLen) :
    (aad ++ nonce.toList ++ ciphertext).getD 16 0 = aad.getD 16 0 := by
  rw [List.append_assoc, List.getD_eq_getElem?_getD, List.getD_eq_getElem?_getD,
    List.getElem?_append_left (by rw [haad]; decide)]

/-- What opening a file comes to, part by part. -/
theorem openFile_parts (haad : aad.length = aadLen) (deriveKey : Outcome Bytes) :
    openFile A h deriveKey (aad ++ nonce.toList ++ ciphertext) =
      if ciphertext.length < tagLen then .ok (.error .truncated)
      else if aad.take 16 ≠ h.magic.toList then .ok (.error .wrongMagic)
      else if aad.getD 16 0 ≠ h.version then
        .ok (.error (.unsupportedVersion (aad.getD 16 0)))
      else deriveKey >>= fun key =>
        match A.decrypt key nonce aad ciphertext with
        | none => .ok (.error .aead)
        | some message => .ok (.ok message) := by
  have hmagic : sliceBytes (aad ++ nonce.toList ++ ciphertext) 0 16 = .ok (aad.take 16) := by
    have h16 : (aad.take 16).length = 16 := by
      rw [List.length_take, haad]
      rfl
    have := sliceBytes_append (a := []) (b := aad.take 16)
      (c := aad.drop 16 ++ nonce.toList ++ ciphertext) (i := 0) (j := 16) rfl
      (by rw [h16]; rfl)
    rwa [List.nil_append, List.append_assoc (aad.drop 16), ← List.append_assoc,
      List.take_append_drop, ← List.append_assoc] at this
  have hversion : at? (aad ++ nonce.toList ++ ciphertext) 16 = .ok (aad.getD 16 0) := by
    have hlt : 16 < aad.length := by
      rw [haad]
      decide
    rw [at?_eq_ok, List.append_assoc, List.getElem?_append_left hlt, List.getD_eq_getElem?_getD,
      List.getElem?_eq_getElem hlt, Option.getD_some]
  have haad' : sliceBytes (aad ++ nonce.toList ++ ciphertext) 0 aadLen = .ok aad := by
    have := sliceBytes_append (a := []) (b := aad) (c := nonce.toList ++ ciphertext) rfl
      (by simpa using haad)
    rwa [List.nil_append, ← List.append_assoc] at this
  have hnonce : sliceBytes (aad ++ nonce.toList ++ ciphertext) aadLen (aadLen + nonceLen) =
      .ok nonce.toList :=
    sliceBytes_append haad (by rw [haad, Vector.length_toList]; rfl)
  have hct : sliceBytes (aad ++ nonce.toList ++ ciphertext) (aadLen + nonceLen)
      (aad ++ nonce.toList ++ ciphertext).length = .ok ciphertext := by
    have := sliceBytes_append (a := aad ++ nonce.toList) (b := ciphertext) (c := [])
      (i := aadLen + nonceLen) (by rw [List.length_append, haad, Vector.length_toList]; rfl) rfl
    rwa [List.append_nil, ← List.length_append] at this
  have hlt : aadLen + nonceLen + ciphertext.length < aadLen + nonceLen + tagLen ↔
      ciphertext.length < tagLen := by omega
  unfold openFile
  rw [length_parts haad] at hct ⊢
  simp only [hlt, hmagic, hversion, haad', hnonce, hct, toNonce_toList, expect_some, ok_bind]

lemma openFile_of_short (hlen : file.length < aadLen + nonceLen + tagLen)
    (deriveKey : Outcome Bytes) : openFile A h deriveKey file = .ok (.error .truncated) := by
  unfold openFile
  rw [if_pos hlen]

/-- As long as the key can be derived, opening a file never panics. -/
theorem openFile_isOk (A : Aead) (h : Header) (key file : Bytes) :
    ∃ r, openFile A h (.ok key) file = .ok r := by
  by_cases hlen : file.length < aadLen + nonceLen + tagLen
  · exact ⟨_, openFile_of_short hlen _⟩
  · obtain ⟨aad, nonce, ciphertext, haad, rfl⟩ := exists_parts file (by omega)
    rw [openFile_parts haad, ok_bind]
    split
    · exact ⟨_, rfl⟩
    split
    · exact ⟨_, rfl⟩
    split
    · exact ⟨_, rfl⟩
    cases A.decrypt key nonce aad ciphertext <;> exact ⟨_, rfl⟩

/-- Whatever the key and the AEAD, a file with other magic bytes is none of this kind. -/
theorem openFile_of_magic (hlen : aadLen + nonceLen + tagLen ≤ file.length)
    (hmagic : file.take 16 ≠ h.magic.toList) (deriveKey : Outcome Bytes) :
    openFile A h deriveKey file = .ok (.error .wrongMagic) := by
  obtain ⟨aad, nonce, ciphertext, haad, rfl⟩ := exists_parts file (by omega)
  rw [length_parts haad] at hlen
  rw [take_parts haad] at hmagic
  rw [openFile_parts haad, if_neg (by omega), if_pos hmagic]

theorem openFile_of_version (hlen : aadLen + nonceLen + tagLen ≤ file.length)
    (hmagic : file.take 16 = h.magic.toList) (hversion : file.getD 16 0 ≠ h.version)
    (deriveKey : Outcome Bytes) :
    openFile A h deriveKey file = .ok (.error (.unsupportedVersion (file.getD 16 0))) := by
  obtain ⟨aad, nonce, ciphertext, haad, rfl⟩ := exists_parts file (by omega)
  rw [length_parts haad] at hlen
  rw [take_parts haad] at hmagic
  rw [getD_parts haad] at hversion ⊢
  rw [openFile_parts haad, if_neg (by omega), if_neg (not_not.mpr hmagic), if_pos hversion]

/-- Behind the checks of the header it is the AEAD that decides. -/
lemma openFile_of_header (A : Aead) (key : Bytes)
    (hlen : aadLen + nonceLen + tagLen ≤ file.length)
    (hmagic : file.take 16 = h.magic.toList) (hversion : file.getD 16 0 = h.version) :
    openFile A h (.ok key) file = .ok (.error .aead) ∨
      ∃ message, openFile A h (.ok key) file = .ok (.ok message) := by
  obtain ⟨aad, nonce, ciphertext, haad, rfl⟩ := exists_parts file (by omega)
  rw [length_parts haad] at hlen
  rw [take_parts haad] at hmagic
  rw [getD_parts haad] at hversion
  rw [openFile_parts haad, if_neg (by omega), if_neg (not_not.mpr hmagic),
    if_neg (not_not.mpr hversion), ok_bind]
  cases A.decrypt key nonce aad ciphertext with
  | none => exact .inl rfl
  | some message => exact .inr ⟨message, rfl⟩

section Ideal

variable {log : Sealing → Prop} {headers : List Header} {message : Bytes}

/-- A header is known by its magic bytes and its version. -/
def Distinct (headers : List Header) : Prop :=
  ∀ h ∈ headers, ∀ h' ∈ headers, h.magic = h'.magic → h = h'

lemma Sealing.tag_le (hideal : A.Ideal log) {s : Sealing} (hs : log s) :
    tagLen ≤ s.ciphertext.length := by
  rw [hideal.tagged _ _ _ _ _ (hideal.sealed s hs)]
  exact Nat.le_add_left _ _

/-- What opens is what has been sealed with this header under this key, and nothing else. -/
theorem openFile_eq_ok (hideal : A.Ideal log) (hheaded : Headed log headers)
    (hdistinct : Distinct headers) (hmem : h ∈ headers) :
    openFile A h (.ok key) file = .ok (.ok message) ↔
      ∃ s, log s ∧ s.key = key ∧ s.aad = h.bytes ∧ s.message = message ∧ s.file = file := by
  constructor
  · intro hopen
    have hlen : aadLen + nonceLen + tagLen ≤ file.length := by
      by_contra hshort
      rw [openFile_of_short (by omega)] at hopen
      cases hopen
    obtain ⟨aad, nonce, ciphertext, haad, rfl⟩ := exists_parts file (by omega)
    rw [length_parts haad] at hlen
    rw [openFile_parts haad, if_neg (by omega), ok_bind] at hopen
    split at hopen
    · cases hopen
    rename_i hmagic
    split at hopen
    · cases hopen
    split at hopen
    · cases hopen
    rename_i _ m hdec
    obtain rfl := Except.ok.inj (Except.ok.inj hopen)
    have hlog := (hideal.opens_iff _ _ _ _ _).mp hdec
    obtain ⟨h', hmem', haad'⟩ := hheaded _ hlog
    -- the magic bytes tell the headers apart
    have hh : h = h' := by
      refine hdistinct h hmem h' hmem' (Vector.toList_inj.mp ?_)
      rw [← not_not.mp hmagic]
      change aad = h'.bytes at haad'
      rw [haad', Header.take_bytes]
    exact ⟨_, hlog, rfl, by rw [hh]; exact haad', rfl, rfl⟩
  · rintro ⟨s, hs, rfl, haad, rfl, rfl⟩
    have htag := Sealing.tag_le hideal hs
    have hdec := (hideal.opens_iff s.key s.nonce s.aad s.message s.ciphertext).mpr hs
    rw [Sealing.file, openFile_parts (by rw [haad]; exact Header.length_bytes), if_neg (by omega),
      if_neg (by rw [haad, Header.take_bytes]; exact not_not.mpr rfl), if_neg, ok_bind, hdec]
    rw [haad, List.getD_eq_getElem?_getD, Header.getElem?_bytes]
    exact not_not.mpr rfl

variable {s : Sealing} {i : Nat} {b : UInt8}

lemma Sealing.length_file (haad : s.aad = h.bytes) :
    s.file.length = aadLen + nonceLen + s.ciphertext.length := by
  rw [Sealing.file, length_parts (by rw [haad]; exact Header.length_bytes)]

lemma Sealing.take_file (haad : s.aad = h.bytes) :
    s.file.take (aadLen + nonceLen) = s.aad ++ s.nonce.toList := by
  have hlen : (s.aad ++ s.nonce.toList).length = aadLen + nonceLen := by
    rw [List.length_append, haad, Header.length_bytes, Vector.length_toList]
    rfl
  rw [Sealing.file, ← hlen, List.take_left]

lemma Sealing.drop_file (haad : s.aad = h.bytes) :
    s.file.drop (aadLen + nonceLen) = s.ciphertext := by
  have hlen : (s.aad ++ s.nonce.toList).length = aadLen + nonceLen := by
    rw [List.length_append, haad, Header.length_bytes, Vector.length_toList]
    rfl
  rw [Sealing.file, ← hlen, List.drop_left]

/-- A change behind the header leaves either the nonce or the ciphertext as it was. -/
lemma Sealing.eq_of_set (hfresh : Fresh log) {s' : Sealing} (hs : log s) (hs' : log s')
    (hkey : s'.key = s.key) (haad : s.aad = h.bytes) (haad' : s'.aad = h.bytes)
    (hfile : s'.file = s.file.set i b) : s' = s := by
  refine hfresh s' s hs' hs hkey ?_
  by_cases hi : i < aadLen + nonceLen
  · right
    rw [← Sealing.drop_file haad', hfile, List.drop_set_of_lt hi, Sealing.drop_file haad]
  · left
    have htake : s'.aad ++ s'.nonce.toList = s.aad ++ s.nonce.toList := by
      rw [← Sealing.take_file haad', hfile, List.take_set_of_le (Nat.le_of_not_lt hi),
        Sealing.take_file haad]
    rw [haad, haad'] at htake
    exact Vector.toList_inj.mp (List.append_cancel_left htake)

/-- A file that has been sealed and then changed in one byte is not opened. -/
theorem openFile_set (hideal : A.Ideal log) (hheaded : Headed log headers)
    (hdistinct : Distinct headers) (hmem : h ∈ headers) (hs : log s) (haad : s.aad = h.bytes)
    (hi : i < s.file.length) (hb : s.file[i]? ≠ some b) (hfresh : aadLen ≤ i → Fresh log) :
    openFile A h (.ok s.key) (s.file.set i b) = .ok (.error
      (if i < 16 then .wrongMagic else if i = 16 then .unsupportedVersion b else .aead)) := by
  have htag := Sealing.tag_le hideal hs
  have hlen : aadLen + nonceLen + tagLen ≤ (s.file.set i b).length := by
    rw [List.length_set, Sealing.length_file haad]
    omega
  have hhead : ∀ j < aadLen, s.file[j]? = h.bytes[j]? := by
    intro j hj
    rw [Sealing.file, List.append_assoc, haad,
      List.getElem?_append_left (by rw [Header.length_bytes]; exact hj)]
  have hset : (s.file.set i b)[i]? = some b := List.getElem?_set_self hi
  have htake : s.file.take 16 = h.magic.toList := by
    rw [Sealing.file, take_parts (by rw [haad]; exact Header.length_bytes), haad,
      Header.take_bytes]
  have hversion : s.file.getD 16 0 = h.version := by
    rw [List.getD_eq_getElem?_getD, hhead 16 (by decide), Header.getElem?_bytes]
    rfl
  by_cases h16 : i < 16
  · -- the magic bytes
    rw [if_pos h16]
    refine openFile_of_magic hlen (fun hmagic => hb ?_) _
    rw [← htake] at hmagic
    have hget := congrArg (fun bytes => bytes[i]?) hmagic
    rw [List.getElem?_take_of_lt h16, List.getElem?_take_of_lt h16, hset] at hget
    exact hget.symm
  rw [if_neg h16]
  have htake' : (s.file.set i b).take 16 = h.magic.toList := by
    rw [List.take_set_of_le (Nat.le_of_not_lt h16), htake]
  by_cases hv : i = 16
  · -- the version
    subst hv
    have hget : (s.file.set 16 b).getD 16 0 = b := by
      rw [List.getD_eq_getElem?_getD, hset, Option.getD_some]
    rw [if_pos rfl, openFile_of_version hlen htake' (by
      rw [hget]
      rintro rfl
      exact hb ((hhead 16 (by decide)).trans Header.getElem?_bytes)), hget]
  · -- the reserved bytes, the nonce and the ciphertext
    rw [if_neg hv]
    have hversion' : (s.file.set i b).getD 16 0 = h.version := by
      rw [List.getD_eq_getElem?_getD, List.getElem?_set_ne hv, ← List.getD_eq_getElem?_getD,
        hversion]
    obtain herror | ⟨message, hopen⟩ := openFile_of_header A s.key hlen htake' hversion'
    · exact herror
    · obtain ⟨s', hs', hkey, haad', -, hfile⟩ :=
        (openFile_eq_ok hideal hheaded hdistinct hmem).mp hopen
      refine absurd ?_ hb
      rw [← hset, ← hfile]
      by_cases hreserved : i < aadLen
      · rw [hhead i hreserved, Sealing.file, List.append_assoc, haad',
          List.getElem?_append_left (by rw [Header.length_bytes]; exact hreserved)]
      · rw [Sealing.eq_of_set (hfresh (Nat.le_of_not_lt hreserved)) hs hs' hkey haad haad' hfile]

end Ideal

lemma openFile_encrypt (hA : A.Undone) {h : Header} {key message ciphertext : Bytes} {nonce : Nonce}
    (hct : A.encrypt key nonce h.bytes message = some ciphertext) :
    openFile A h (.ok key) (h.bytes ++ nonce.toList ++ ciphertext) = .ok (.ok message) := by
  rw [openFile_parts Header.length_bytes, if_neg (Nat.not_lt.mpr (hA.tag_le _ _ _ _ _ hct)),
    Header.take_bytes, if_neg (by simp), if_neg (by simp), ok_bind, hA.decrypts _ _ _ _ _ hct]

/-- The message itself is the ciphertext, but for 16 zero bytes behind it. -/
def Aead.padding : Aead where
  encrypt _ _ _ message := some (message ++ List.replicate tagLen 0)
  decrypt _ _ _ ciphertext :=
    if tagLen ≤ ciphertext.length then some (ciphertext.take (ciphertext.length - tagLen)) else none

lemma Aead.padding_undone : Aead.padding.Undone where
  decrypts key nonce aad message ciphertext h := by
    obtain rfl := Option.some.inj h
    change (if _ then _ else _) = _
    rw [if_pos (by simp)]
    simp
  tag_le key nonce aad message ciphertext h := by
    obtain rfl := Option.some.inj h
    simp

/-- The tag is 16 zero bytes, and a ciphertext is looked up in the log. -/
def Aead.recording (log : List Sealing) : Aead where
  encrypt _ _ _ message := some (message ++ List.replicate tagLen 0)
  decrypt key nonce aad ciphertext :=
    (log.find? fun s => decide (s.key = key ∧ s.nonce = nonce ∧ s.aad = aad ∧
      s.ciphertext = ciphertext)).map Sealing.message

lemma Aead.recording_ideal {log : List Sealing}
    (hlog : ∀ s ∈ log, s.ciphertext = s.message ++ List.replicate tagLen 0) :
    (Aead.recording log).Ideal (· ∈ log) where
  sealed s hs := congrArg some (hlog s hs).symm
  tagged key nonce aad message ciphertext h := by
    obtain rfl := Option.some.inj h
    rw [List.length_append, List.length_replicate]
  opens_iff key nonce aad message ciphertext := by
    change Option.map _ (log.find? _) = _ ↔ _
    constructor
    · intro h
      obtain ⟨s, hfind, rfl⟩ := Option.map_eq_some_iff.mp h
      have hs := List.find?_some hfind
      simp only [decide_eq_true_eq] at hs
      obtain ⟨rfl, rfl, rfl, rfl⟩ := hs
      exact List.mem_of_find?_eq_some hfind
    · intro hmem
      cases hfind : log.find? fun s => decide (s.key = key ∧ s.nonce = nonce ∧ s.aad = aad ∧
          s.ciphertext = ciphertext) with
      | none => simpa using List.find?_eq_none.mp hfind _ hmem
      | some s =>
        -- the ciphertext determines the message
        have hfound := List.find?_some hfind
        simp only [decide_eq_true_eq] at hfound
        obtain ⟨-, -, -, hct⟩ := hfound
        have hs := hlog s (List.mem_of_find?_eq_some hfind)
        have hm := hlog _ hmem
        rw [hct] at hs
        exact congrArg some (List.append_cancel_right (hs.symm.trans hm))

end Format
