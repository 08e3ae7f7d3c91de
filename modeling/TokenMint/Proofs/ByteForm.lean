import TokenMint.Proofs.BigEndian
import TokenMint.Token.Wire

/-!
# Tokens as bytes

Sixteen bytes and a token are the same thing in two forms, and neither way
between them loses anything.  A buffer holds a token exactly if sixteen bytes of
it are given; whoever reads one that does not learns why and keeps what they had.
-/

namespace TokenMint.Token

theorem length_toBytes (token : Token) : token.toBytes.length = 16 :=
  BigEndian.length_encode128 token.value

theorem ofBytes_toBytes (token : Token) : ofBytes token.toBytes = token := by
  rw [ofBytes, toBytes, BigEndian.decode128_encode128]

theorem toBytes_ofBytes {bytes : Bytes} (hlength : bytes.length = 16) :
    (ofBytes bytes).toBytes = bytes :=
  BigEndian.encode128_decode128 hlength

theorem ofBuffer_of_present (bytes : Bytes) : ofBuffer (some bytes) 16 = .ok (ofBytes bytes) :=
  rfl

theorem ofBuffer_of_wrong_length (buffer : Option Bytes) {length : UInt64}
    (hlength : length ≠ 16) : ofBuffer buffer length = .error (.wrongLength length) := by
  have hcount : length ≠ byteCount := hlength
  unfold ofBuffer
  rw [if_pos hcount]

theorem ofBuffer_none (length : UInt64) : ∃ error, ofBuffer none length = .error error := by
  by_cases hlength : length = 16
  · subst hlength
    exact ⟨_, rfl⟩
  · exact ⟨_, ofBuffer_of_wrong_length none hlength⟩

/-- A token is among its own bytes. -/
theorem ofBuffer_toBytes (token : Token) : ofBuffer (some token.toBytes) 16 = .ok token := by
  rw [ofBuffer_of_present, ofBytes_toBytes]

/-- A buffer with sixteen bytes is all that a token asks for. -/
theorem ofBuffer_eq_ok_iff {buffer : Option Bytes} {length : UInt64} {token : Token} :
    ofBuffer buffer length = .ok token ↔ length = 16 ∧ buffer.map ofBytes = some token := by
  by_cases hlength : length = 16
  · subst hlength
    cases buffer with
    | none => simp [ofBuffer, byteCount]
    | some bytes => simp [ofBuffer_of_present]
  · rw [ofBuffer_of_wrong_length buffer hlength]
    simp [hlength]

theorem WireError.code_status (error : WireError) : error.status.code = Code.invalidArgument :=
  rfl

section Read

variable {buffer : Option Bytes} {length : UInt64} {old : Token} {log : Log}

theorem read_of_ok {token : Token} (hbuffer : ofBuffer buffer length = .ok token) :
    read buffer length (some old) log = (.ok (Status.ok, token), log) := by
  rw [read, hbuffer]
  rfl

theorem read_of_error {error : WireError} (hbuffer : ofBuffer buffer length = .error error) :
    read buffer length (some old) log = (.ok (error.status, old), log) := by
  rw [read, hbuffer]
  rfl

end Read

/-- Tokens and strings of sixteen bytes correspond one to one, and reading a
token from its bytes succeeds.  Reading succeeds for sixteen bytes of a buffer
that is there, and for nothing else.  A failure is an invalid argument, and the
destination keeps what it held. -/
theorem byte_form_is_bijective :
    (∀ token : Token, ofBytes token.toBytes = token ∧
      ∀ (old : Token) (log : Log),
        read (some token.toBytes) 16 (some old) log = (.ok (Status.ok, token), log)) ∧
    (∀ bytes : Vector UInt8 16, (ofBytes bytes.toList).toBytes = bytes.toList) ∧
    ∀ (buffer : Option Bytes) (length : UInt64) (old : Token) (log : Log),
      ∃ (status : Status) (held : Token),
        read buffer length (some old) log = (.ok (status, held), log) ∧
          (status.isOk = true ↔ length = 16 ∧ buffer.isSome = true) ∧
          (status.isOk = true ∧ buffer.map ofBytes = some held ∨
            status.code = Code.invalidArgument ∧ held = old) := by
  refine ⟨?_, ?_, ?_⟩
  · intro token
    exact ⟨ofBytes_toBytes token, fun old log => read_of_ok (ofBuffer_toBytes token)⟩
  · intro bytes
    exact toBytes_ofBytes bytes.length_toList
  · intro buffer length old log
    cases hbuffer : ofBuffer buffer length with
    | ok token =>
        obtain ⟨hlength, htoken⟩ := ofBuffer_eq_ok_iff.mp hbuffer
        have hpresent : buffer.isSome = true := by
          rw [← Option.isSome_map (f := ofBytes), htoken]
          rfl
        exact ⟨Status.ok, token, read_of_ok hbuffer, iff_of_true rfl ⟨hlength, hpresent⟩,
          Or.inl ⟨rfl, htoken⟩⟩
    | error error =>
        have hunfit : ¬ (length = 16 ∧ buffer.isSome = true) := by
          rintro ⟨hlength, hpresent⟩
          obtain ⟨bytes, rfl⟩ := Option.isSome_iff_exists.mp hpresent
          rw [ofBuffer_eq_ok_iff.mpr ⟨hlength, rfl⟩] at hbuffer
          contradiction
        have hfailed : ¬ error.status.isOk = true := by
          rw [Status.isOk_iff_code, error.code_status]
          decide
        exact ⟨error.status, old, read_of_error hbuffer, iff_of_false hfailed hunfit,
          Or.inr ⟨error.code_status, rfl⟩⟩

end TokenMint.Token
