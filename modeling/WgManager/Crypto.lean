import WgManager.Lib.PyBytes

/-!
# Secrets at rest

`LocalDevBackend` of `crypto.py` binds a secret to the row it is stored in: what it encrypts is a
frame of the context and the plaintext, `[u16 length of the context | context | plaintext]`, and
when it has decrypted a blob it compares the context in the frame with the one it is given.
`Fernet` is a parameter; that it is authenticated encryption is `Fernet.Lawful`.

The frame can be read in one way only, whatever is in the context and in the plaintext, so that a
blob opens in its own row and in no other (`blob_opens_only_in_its_row`).  What is refused is
refused with a `DecryptError`, but for a blob with the prefix that is not in ASCII
(`refusals_are_decryptErrors_iff`).
-/

set_option autoImplicit false

namespace WgManager.Crypto

open PyBytes

/-- `cryptography.fernet.Fernet` with a key.  A token depends on the time and on random bytes, which
are drawn for it. -/
structure Fernet (Draw : Type*) where
  encrypt : Draw → Bytes → Bytes
  /-- `none` is `InvalidToken`. -/
  decrypt : Bytes → Option Bytes

/-- Tokens are in ASCII, and are decrypted to what was encrypted. -/
structure Fernet.Lawful {Draw : Type*} (fernet : Fernet Draw) : Prop where
  ascii : ∀ draw plaintext, ∀ b ∈ fernet.encrypt draw plaintext, b < 128
  decrypt_encrypt : ∀ draw plaintext,
    fernet.decrypt (fernet.encrypt draw plaintext) = some plaintext

/-- What `encrypt` and `decrypt` raise. -/
inductive Raised
  | valueError (message : String)
  | decryptError (message : String)
  /-- A text or bytes that cannot be encoded or decoded. -/
  | unicodeError
  deriving DecidableEq

namespace LocalDevBackend

def name : String := "local-dev"

def blobPrefix : String := "local:v1:"

/-- `[u16 context-length | context | data]`. -/
def frame (context plaintext : Bytes) : Bytes :=
  toBytes 2 context.length ++ (context ++ plaintext)

section

variable {Draw : Type*} (fernet : Fernet Draw)

/-- `LocalDevBackend.encrypt`. -/
def encrypt (draw : Draw) (plaintext : Bytes) (context : String) : Except Raised String :=
  let contextBytes := encodeUtf8 context
  let length := contextBytes.length
  if 0xFFFF < length then .error (.valueError s!"context too long ({length} bytes > 65535)")
  else
    match decodeAscii (fernet.encrypt draw (frame contextBytes plaintext)) with
    | none => .error .unicodeError
    | some token => .ok (blobPrefix ++ token)

/-- `framed[2 : 2 + context_len]` and `framed[2 + context_len :]`. -/
def unframe (framed : Bytes) : Bytes × Bytes :=
  let contextLen := ofBytes (framed.take 2)
  ((framed.drop 2).take contextLen, framed.drop (2 + contextLen))

/-- The text after the first `n` characters. -/
def rest (n : ℕ) (s : String) : String := String.ofList (s.toList.drop n)

/-- `LocalDevBackend.decrypt`. -/
def decrypt (blob context : String) : Except Raised Bytes :=
  if !blobPrefix.toList.isPrefixOf blob.toList then
    .error (.decryptError s!"blob missing '{blobPrefix}' prefix; not a {name} ciphertext")
  else
    let token := rest blobPrefix.length blob
    if token.toList.any (128 ≤ ·.toNat) then .error .unicodeError
    else
      match fernet.decrypt (ascii token) with
      | none => .error (.decryptError "local-dev decrypt failed")
      | some framed =>
        match decodeUtf8 (unframe framed).1 with
        | none => .error .unicodeError
        | some storedContext =>
          if storedContext ≠ context then .error (.decryptError "local-dev decrypt failed")
          else .ok (unframe framed).2

end

/-- A frame is read in one way, whatever its parts are. -/
theorem unframe_frame {context : Bytes} (plaintext : Bytes) (h : context.length ≤ 65535) :
    unframe (frame context plaintext) = (context, plaintext) := by
  have hhead : (frame context plaintext).take 2 = toBytes 2 context.length :=
    List.take_left' (length_toBytes 2 _)
  have htail : (frame context plaintext).drop 2 = context ++ plaintext :=
    List.drop_left' (length_toBytes 2 _)
  have hlength : ofBytes (toBytes 2 context.length) = context.length :=
    ofBytes_toBytes (Nat.lt_succ_of_le h)
  rw [unframe, hhead, hlength, ← List.drop_drop, htail, List.take_left, List.drop_left]

section

variable {Draw : Type*} {fernet : Fernet Draw} {draw : Draw} {plaintext : Bytes} {context : String}

/-- A context that is not too long is accepted, and the blob holds a token for its frame. -/
theorem encrypt_eq_ok (hf : fernet.Lawful) (draw : Draw) (plaintext : Bytes)
    (h : (encodeUtf8 context).length ≤ 65535) :
    ∃ token, encrypt fernet draw plaintext context = .ok (blobPrefix ++ token) ∧ IsAscii token ∧
      ascii token = fernet.encrypt draw (frame (encodeUtf8 context) plaintext) := by
  obtain ⟨token, htoken, hascii⟩ := exists_decodeAscii
    (hf.ascii draw (frame (encodeUtf8 context) plaintext))
  refine ⟨token, ?_, hascii, ascii_of_decodeAscii htoken⟩
  simp only [encrypt, Nat.not_lt.mpr h, if_false, htoken]

/-- What is left of a blob after its prefix is the token. -/
theorem rest_append (s t : String) : rest s.length (s ++ t) = t := by
  rw [rest, String.toList_append, ← String.length_toList, List.drop_left, String.ofList_toList]

theorem any_eq_false_iff (token : String) :
    token.toList.any (128 ≤ ·.toNat) = false ↔ IsAscii token := by
  simp [IsAscii]

/-- A blob with the prefix is decrypted by its token. -/
theorem decrypt_append (token : String) :
    decrypt fernet (blobPrefix ++ token) context =
      if token.toList.any (128 ≤ ·.toNat) then .error .unicodeError
      else
        match fernet.decrypt (ascii token) with
        | none => .error (.decryptError "local-dev decrypt failed")
        | some framed =>
          match decodeUtf8 (unframe framed).1 with
          | none => .error .unicodeError
          | some storedContext =>
            if storedContext ≠ context then .error (.decryptError "local-dev decrypt failed")
            else .ok (unframe framed).2 := by
  have hstart : blobPrefix.toList.isPrefixOf (blobPrefix ++ token).toList = true := by
    rw [String.toList_append, List.isPrefixOf_iff_prefix]
    exact List.prefix_append _ _
  rw [decrypt, hstart, rest_append]
  rfl

/-- A blob with a token for a frame is opened by the context of the frame. -/
theorem decrypt_token (hf : fernet.Lawful) {token : String} (hascii : IsAscii token)
    (h : (encodeUtf8 context).length ≤ 65535)
    (htoken : ascii token = fernet.encrypt draw (frame (encodeUtf8 context) plaintext))
    (other : String) :
    decrypt fernet (blobPrefix ++ token) other =
      if context = other then .ok plaintext
      else .error (.decryptError "local-dev decrypt failed") := by
  rw [decrypt_append]
  simp only [(any_eq_false_iff token).mpr hascii, Bool.false_eq_true, if_false, htoken,
    hf.decrypt_encrypt, unframe_frame plaintext h, decodeUtf8_encodeUtf8, ne_eq]
  by_cases hsame : context = other
  · simp only [hsame, not_true, if_false, if_true]
  · simp only [hsame, not_false_eq_true, if_true, if_false]

/-- **A blob opens only in its own row.**  What is encrypted for a context is decrypted for this
context, and for no other; so a blob that is moved to another row is refused there, when the rows
have contexts of their own. -/
theorem blob_opens_only_in_its_row (hf : fernet.Lawful) :
    (∀ draw plaintext c₁ c₂, (encodeUtf8 c₁).length ≤ 65535 → (encodeUtf8 c₂).length ≤ 65535 →
      ∃ blob, encrypt fernet draw plaintext c₁ = .ok blob ∧
        decrypt fernet blob c₂ =
          if c₁ = c₂ then .ok plaintext
          else .error (.decryptError "local-dev decrypt failed")) ∧
    ∀ (Row : Type) [DecidableEq Row] (context : Row → String) (secret : Row → Bytes)
      (blob : Row → String) (draw : Row → Draw), Function.Injective context →
      (∀ row, (encodeUtf8 (context row)).length ≤ 65535) →
      (∀ row, encrypt fernet (draw row) (secret row) (context row) = .ok (blob row)) →
      ∀ row from', decrypt fernet (blob from') (context row) =
        if from' = row then .ok (secret row)
        else .error (.decryptError "local-dev decrypt failed") := by
  have hopen : ∀ draw plaintext c₁ c₂, (encodeUtf8 c₁).length ≤ 65535 →
      ∃ blob, encrypt fernet draw plaintext c₁ = .ok blob ∧
        decrypt fernet blob c₂ =
          if c₁ = c₂ then .ok plaintext
          else .error (.decryptError "local-dev decrypt failed") := by
    intro draw plaintext c₁ c₂ h
    obtain ⟨token, hencrypt, hascii, htoken⟩ := encrypt_eq_ok hf draw plaintext h
    exact ⟨_, hencrypt, decrypt_token hf hascii h htoken c₂⟩
  refine ⟨fun draw plaintext c₁ c₂ h₁ _ ↦ hopen draw plaintext c₁ c₂ h₁, ?_⟩
  intro Row _ context secret blob draw hinj hlength hstored row from'
  obtain ⟨_, hencrypt, hdecrypt⟩ :=
    hopen (draw from') (secret from') (context from') (context row) (hlength from')
  rw [hstored from', Except.ok.injEq] at hencrypt
  rw [hencrypt, hdecrypt]
  by_cases hrow : from' = row
  · rw [hrow, if_pos rfl, if_pos rfl]
  · rw [if_neg hrow, if_neg fun h ↦ hrow (hinj h)]

end

/-- The bytes that pairs of half bytes stand for. -/
def readHalves : Bytes → Option Bytes
  | [] => some []
  | high :: low :: token =>
    if high < 16 ∧ low < 16 then
      (readHalves token).map (UInt8.ofNat (16 * high.toNat + low.toNat) :: ·)
    else none
  | [_] => none

/-- Half bytes in the place of tokens, for examples. -/
def halfByteFernet : Fernet Unit where
  encrypt _ plaintext :=
    plaintext.flatMap fun b ↦ [UInt8.ofNat (b.toNat / 16), UInt8.ofNat (b.toNat % 16)]
  decrypt := readHalves

theorem toNat_ofNat_half {n : ℕ} (h : n < 16) : (UInt8.ofNat n).toNat = n := by
  rw [UInt8.toNat_ofNat']
  omega

theorem half_lt {n : ℕ} (h : n < 16) : UInt8.ofNat n < 16 := by
  rw [UInt8.lt_iff_toNat_lt, toNat_ofNat_half h]
  exact h

theorem halfByteFernet_lawful : halfByteFernet.Lawful where
  ascii _ plaintext := by
    intro b hb
    obtain ⟨c, -, hb⟩ := List.mem_flatMap.mp hb
    have hhigh : c.toNat / 16 < 16 := Nat.div_lt_of_lt_mul c.toNat_lt
    have hlow : c.toNat % 16 < 16 := Nat.mod_lt _ (by decide)
    simp only [List.mem_cons, List.not_mem_nil, or_false] at hb
    rcases hb with rfl | rfl
    · exact UInt8.lt_trans (half_lt hhigh) (by decide)
    · exact UInt8.lt_trans (half_lt hlow) (by decide)
  decrypt_encrypt _ plaintext := by
    show readHalves (plaintext.flatMap _) = _
    induction plaintext with
    | nil => rfl
    | cons b plaintext ih =>
      have hhigh : b.toNat / 16 < 16 := Nat.div_lt_of_lt_mul b.toNat_lt
      have hlow : b.toNat % 16 < 16 := Nat.mod_lt _ (by decide)
      rw [List.flatMap_cons, List.cons_append, List.cons_append, List.nil_append, readHalves,
        if_pos ⟨half_lt hhigh, half_lt hlow⟩, ih, Option.map_some, toNat_ofNat_half hhigh,
        toNat_ofNat_half hlow, Nat.div_add_mod, UInt8.ofNat_toNat]

theorem blob_opens_only_in_its_row_sshkeys :
    ∃ blob, encrypt halfByteFernet () [104, 105] "sshkey:1" = .ok blob ∧
      decrypt halfByteFernet blob "sshkey:1" = .ok [104, 105] ∧
      decrypt halfByteFernet blob "sshkey:2" =
        .error (.decryptError "local-dev decrypt failed") := by
  have hopen := (blob_opens_only_in_its_row halfByteFernet_lawful).1 () [104, 105] "sshkey:1"
  obtain ⟨blob, hblob, hsame⟩ := hopen "sshkey:1" (by decide +kernel) (by decide +kernel)
  obtain ⟨blob', hblob', hother⟩ := hopen "sshkey:2" (by decide +kernel) (by decide +kernel)
  rw [hblob, Except.ok.injEq] at hblob'
  subst hblob'
  exact ⟨blob, hblob, hsame, hother⟩

/-! ## What is refused -/

/-- The two bytes of the length are there, and after them as many bytes as they say. -/
def Complete (framed : Bytes) : Prop :=
  2 ≤ framed.length ∧ ofBytes (framed.take 2) ≤ (framed.drop 2).length

/-- What stands in the place of the context can be decoded, and if it is this context, then the
frame is complete. -/
def Readable (framed : Bytes) (context : String) : Prop :=
  ∃ stored, decodeUtf8 (unframe framed).1 = some stored ∧ (stored = context → Complete framed)

/-- Bytes are a frame for the context that is read from them, when they are complete. -/
theorem eq_frame_iff {framed : Bytes} {context : String}
    (hstored : decodeUtf8 (unframe framed).1 = some context) :
    framed = frame (encodeUtf8 context) (unframe framed).2 ↔ Complete framed := by
  rw [encodeUtf8_of_decodeUtf8 hstored]
  have hlength : (unframe framed).1.length = min (ofBytes (framed.take 2)) (framed.drop 2).length :=
    List.length_take
  constructor
  · intro heq
    have htake : framed.take 2 = toBytes 2 (unframe framed).1.length := by
      conv_lhs => rw [heq, frame]
      exact List.take_left' (length_toBytes 2 _)
    have hle := ofBytes_toBytes_le 2 (unframe framed).1.length
    rw [← htake] at hle
    refine ⟨?_, by omega⟩
    rw [heq, frame, List.length_append, length_toBytes]
    exact Nat.le_add_right 2 _
  · rintro ⟨htwo, hle⟩
    rw [Nat.min_eq_left hle] at hlength
    have hfield : (framed.take 2).length = 2 := List.length_take_of_le htwo
    have htake : toBytes 2 (ofBytes (framed.take 2)) = framed.take 2 := by
      have hback := toBytes_ofBytes (framed.take 2)
      rwa [hfield] at hback
    rw [frame, hlength, htake, unframe, ← List.drop_drop, List.take_append_drop,
      List.take_append_drop]

/-- What `encrypt` makes is readable, whichever row it is for. -/
theorem readable_frame {stored : String} (plaintext : Bytes)
    (h : (encodeUtf8 stored).length ≤ 65535) (context : String) :
    Readable (frame (encodeUtf8 stored) plaintext) context := by
  have hstored : decodeUtf8 (unframe (frame (encodeUtf8 stored) plaintext)).1 = some stored := by
    rw [unframe_frame plaintext h, decodeUtf8_encodeUtf8]
  refine ⟨stored, hstored, fun _ ↦ (eq_frame_iff hstored).mp ?_⟩
  rw [unframe_frame plaintext h]

section

variable {Draw : Type*} {fernet : Fernet Draw} {blob context : String}

/-- `decrypt` returns the plaintext of a frame for the context, or raises a `DecryptError`. -/
def Answers (fernet : Fernet Draw) (blob context : String) : Prop :=
  (∃ plaintext, decrypt fernet blob context = .ok plaintext ∧
    fernet.decrypt (ascii (rest blobPrefix.length blob)) =
      some (frame (encodeUtf8 context) plaintext)) ∨
  ∃ message, decrypt fernet blob context = .error (.decryptError message)

theorem answers_of_foreign (h : ¬blobPrefix.toList <+: blob.toList) :
    Answers fernet blob context := by
  rw [← List.isPrefixOf_iff_prefix, Bool.not_eq_true] at h
  rw [Answers, decrypt, h]
  exact .inr ⟨_, rfl⟩

/-- The prefix is in ASCII, so that the token is if and only if the blob is. -/
theorem isAscii_append (token : String) : IsAscii (blobPrefix ++ token) ↔ IsAscii token := by
  have hstart : ∀ c ∈ blobPrefix.toList, c.toNat < 128 := by
    have hall : (blobPrefix.toList.all fun c ↦ decide (c.toNat < 128)) = true := by decide
    simpa using hall
  constructor
  · intro h c hc
    refine h c ?_
    rw [String.toList_append]
    exact List.mem_append_right _ hc
  · intro h c hc
    rw [String.toList_append, List.mem_append] at hc
    exact hc.elim (hstart c) (h c)

theorem exists_token (h : blobPrefix.toList <+: blob.toList) :
    ∃ token, blob = blobPrefix ++ token := by
  obtain ⟨cs, hcs⟩ := h
  refine ⟨String.ofList cs, ?_⟩
  rw [← String.toList_inj, String.toList_append, String.toList_ofList, hcs]

/-- A token that cannot be encoded is no answer. -/
theorem not_answers_of_not_isAscii {token : String} (h : ¬IsAscii token) :
    ¬Answers fernet (blobPrefix ++ token) context := by
  rw [← any_eq_false_iff, Bool.not_eq_false] at h
  rw [Answers, decrypt_append, if_pos h]
  rintro (⟨_, hok, -⟩ | ⟨_, herror⟩)
  · cases hok
  · cases herror

/-- A token in ASCII is an answer, when what it is decrypted to is readable. -/
theorem answers_append_iff {token : String} (h : IsAscii token) :
    Answers fernet (blobPrefix ++ token) context ↔
      ∀ framed ∈ fernet.decrypt (ascii token), Readable framed context := by
  rw [Answers, decrypt_append, rest_append,
    if_neg (Bool.eq_false_iff.mp ((any_eq_false_iff token).mpr h))]
  cases hdecrypt : fernet.decrypt (ascii token) with
  | none => exact iff_of_true (.inr ⟨_, rfl⟩) (by simp)
  | some framed =>
    simp only [Option.mem_some_iff, forall_eq', Option.some.injEq, Readable]
    cases hstored : decodeUtf8 (unframe framed).1 with
    | none => simp
    | some stored =>
      simp only [Option.some.injEq, exists_eq_left']
      by_cases hsame : stored = context
      · have heq := eq_frame_iff (hsame ▸ hstored)
        simp only [hsame, ne_eq, not_true, if_false, Except.ok.injEq, forall_const, ← heq]
        simp
      · simp [hsame]

/-- **When every refusal is a `DecryptError`.**  `decrypt` returns the plaintext of a frame for the
context or raises a `DecryptError`, if and only if the blob does not have the prefix, or is in ASCII
and its token, if it is one, holds readable bytes.  For the tokens of frames, and for what is no
token, the blob only has to be in ASCII. -/
theorem refusals_are_decryptErrors_iff (fernet : Fernet Draw) :
    (∀ blob context, Answers fernet blob context ↔
      (blobPrefix.toList <+: blob.toList → IsAscii blob ∧
        ∀ framed ∈ fernet.decrypt (ascii (rest blobPrefix.length blob)),
          Readable framed context)) ∧
    ∀ blob context, (∀ framed ∈ fernet.decrypt (ascii (rest blobPrefix.length blob)),
        ∃ stored plaintext, (encodeUtf8 stored).length ≤ 65535 ∧
          framed = frame (encodeUtf8 stored) plaintext) →
      (Answers fernet blob context ↔ (blobPrefix.toList <+: blob.toList → IsAscii blob)) := by
  have hmain : ∀ blob context, Answers fernet blob context ↔
      (blobPrefix.toList <+: blob.toList → IsAscii blob ∧
        ∀ framed ∈ fernet.decrypt (ascii (rest blobPrefix.length blob)),
          Readable framed context) := by
    intro blob context
    by_cases hstart : blobPrefix.toList <+: blob.toList
    · obtain ⟨token, rfl⟩ := exists_token hstart
      rw [isAscii_append, rest_append]
      by_cases hascii : IsAscii token
      · rw [answers_append_iff hascii]
        simp [hascii]
      · exact iff_of_false (not_answers_of_not_isAscii hascii) fun h ↦ hascii (h hstart).1
    · exact iff_of_true (answers_of_foreign hstart) fun h ↦ absurd h hstart
  refine ⟨hmain, fun blob context hframes ↦ ?_⟩
  rw [hmain]
  refine forall_congr' fun _ ↦ and_iff_left fun framed hframed ↦ ?_
  obtain ⟨stored, plaintext, hlength, rfl⟩ := hframes framed hframed
  exact readable_frame plaintext hlength context

end

/-- A blob in another row, and one whose token has been replaced. -/
theorem refusals_are_decryptErrors_iff_sshkeys :
    (∃ blob, encrypt halfByteFernet () [104, 105] "sshkey:1" = .ok blob ∧
      Answers halfByteFernet blob "sshkey:2") ∧
    Answers halfByteFernet "local:v1:A" "sshkey:1" := by
  have hlength : (encodeUtf8 "sshkey:1").length ≤ 65535 := by decide +kernel
  obtain ⟨token, hblob, hascii, htoken⟩ :=
    encrypt_eq_ok halfByteFernet_lawful () [104, 105] hlength
  refine ⟨⟨_, hblob, ((refusals_are_decryptErrors_iff halfByteFernet).2 _ _ ?_).mpr ?_⟩,
    ((refusals_are_decryptErrors_iff halfByteFernet).1 _ _).mpr fun _ ↦ ⟨?_, ?_⟩⟩
  · rw [rest_append, htoken, halfByteFernet_lawful.decrypt_encrypt]
    intro framed hframed
    rw [Option.mem_some_iff] at hframed
    exact ⟨"sshkey:1", [104, 105], hlength, hframed.symm⟩
  · exact fun _ ↦ (isAscii_append token).mpr hascii
  · exact (any_eq_false_iff _).mp (by decide)
  · have hnone : halfByteFernet.decrypt (ascii (rest blobPrefix.length "local:v1:A")) = none := by
      decide +kernel
    simp [hnone]

/-- A blob whose token is not in ASCII raises a `UnicodeEncodeError`; and a token for three bytes,
of which the first two say that the third is the context, raises a `UnicodeDecodeError` when that
byte is not UTF-8. -/
theorem accented_blob_raises :
    decrypt halfByteFernet "local:v1:é" "sshkey:1" = .error .unicodeError ∧
      (∃ token, ascii token = halfByteFernet.encrypt () [0, 1, 255] ∧
        decrypt halfByteFernet (blobPrefix ++ token) "sshkey:1" = .error .unicodeError) ∧
      ¬∀ (fernet : Fernet Unit), fernet.Lawful → ∀ blob context, Answers fernet blob context := by
  have hraises : decrypt halfByteFernet "local:v1:é" "sshkey:1" = .error .unicodeError := by
    decide +kernel
  refine ⟨hraises, ?_, fun hall ↦ ?_⟩
  · obtain ⟨token, htoken, hascii⟩ :=
      exists_decodeAscii (halfByteFernet_lawful.ascii () [0, 1, 255])
    have hblob := ascii_of_decodeAscii htoken
    have hstored : decodeUtf8 (unframe [0, 1, 255]).1 = none := by decide +kernel
    refine ⟨token, hblob, ?_⟩
    rw [decrypt_append, (any_eq_false_iff token).mpr hascii, hblob,
      halfByteFernet_lawful.decrypt_encrypt]
    simp [hstored]
  · rcases hall halfByteFernet halfByteFernet_lawful "local:v1:é" "sshkey:1" with
      ⟨_, hok, -⟩ | ⟨_, herror⟩
    · rw [hraises] at hok
      cases hok
    · rw [hraises] at herror
      cases herror

end LocalDevBackend

end WgManager.Crypto
