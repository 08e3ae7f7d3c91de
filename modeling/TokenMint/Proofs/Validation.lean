import TokenMint.Proofs.ByteForm
import TokenMint.Proofs.Effects
import TokenMint.Proofs.Layout
import TokenMint.Validator

/-!
# Verdicts on bytes

What a validator thinks of a buffer can be read off seven bytes.  The markers
stand in the seventh byte and the timestamp in the six before it.  The test
against the clock subtracts, so that no sum of 64-bit numbers can run over.
-/

namespace TokenMint

/-- The verdict on a token when the clock shows `now`.  The first test that fails
decides. -/
def Token.verdictAt (token : Token) (now tolerance : Nat) : Verdict :=
  if token.version.toNat ≠ 8 then .wrongVersion
  else if token.variant.toNat ≠ 2 then .wrongVariant
  else if now + tolerance < token.timestamp.toNat then .futureTimestamp
  else .valid

/-- The seventh byte of a token: the version, the variant, and the top of the
counter, from its most significant bit down. -/
def Token.markerByte (bytes : Bytes) : Nat :=
  (bytes.getD 6 0).toNat

/-- The same verdict, read off the first seven bytes. -/
def Verdict.ofBytes (bytes : Bytes) (now tolerance : Nat) : Verdict :=
  if Token.markerByte bytes / 16 ≠ 8 then .wrongVersion
  else if Token.markerByte bytes / 4 % 4 ≠ 2 then .wrongVariant
  else if now + tolerance < BigEndian.value (bytes.take 6) then .futureTimestamp
  else .valid

/-- The verdict on a buffer, which may be missing, with its claimed length. -/
def Verdict.ofBuffer (buffer : Option Bytes) (length : UInt64) (now tolerance : Nat) : Verdict :=
  match buffer with
  | none => .malformed
  | some bytes => if length = 16 then ofBytes bytes now tolerance else .malformed

theorem Verdict.ofBytes_eq_valid_iff {bytes : Bytes} {now tolerance : Nat} :
    ofBytes bytes now tolerance = .valid ↔
      Token.markerByte bytes / 16 = 8 ∧ Token.markerByte bytes / 4 % 4 = 2 ∧
        BigEndian.value (bytes.take 6) ≤ now + tolerance := by
  unfold ofBytes
  split
  case isTrue hversion => simp [hversion]
  case isFalse hversion =>
    split
    case isTrue hvariant => simp [hvariant]
    case isFalse hvariant =>
      have hversion := Decidable.not_not.mp hversion
      have hvariant := Decidable.not_not.mp hvariant
      split
      case isTrue hahead => simp [hahead]
      case isFalse hintime => simp [hversion, hvariant, Nat.not_lt.mp hintime]

/-- More time or more tolerance cannot spoil a valid buffer. -/
theorem Verdict.ofBuffer_valid_mono {buffer : Option Bytes} {length : UInt64}
    {now tolerance now' tolerance' : Nat} (hlimit : now + tolerance ≤ now' + tolerance')
    (hvalid : ofBuffer buffer length now tolerance = .valid) :
    ofBuffer buffer length now' tolerance' = .valid := by
  cases buffer with
  | none => contradiction
  | some bytes =>
      by_cases hlength : length = 16
      · simp only [ofBuffer, if_pos hlength, ofBytes_eq_valid_iff] at hvalid ⊢
        exact ⟨hvalid.1, hvalid.2.1, Nat.le_trans hvalid.2.2 hlimit⟩
      · simp [ofBuffer, hlength] at hvalid

namespace Token

section Bytes

variable {bytes : Bytes}

theorem markerByte_lt (bytes : Bytes) : markerByte bytes < 256 :=
  (bytes.getD 6 0).toNat_lt

/-- The first seven bytes of a token, seen in its number. -/
theorem toNat_ofBytes (hlength : 16 ≤ bytes.length) :
    ∃ rest, rest < 2 ^ 72 ∧ (ofBytes bytes).value.toNat =
      BigEndian.value (bytes.take 6) * 2 ^ 80 + markerByte bytes * 2 ^ 72 + rest := by
  have hseven : 6 < bytes.length := by omega
  have htail : ((bytes.drop 7).take 9).length = 9 := by
    rw [List.length_take, List.length_drop]
    omega
  have hsplit : bytes.take 16 = bytes.take 6 ++ bytes[6] :: (bytes.drop 7).take 9 := by
    rw [List.take_add (i := 6) (j := 10), List.drop_eq_getElem_cons hseven, List.take_succ_cons]
  have hmarker : markerByte bytes = bytes[6].toNat := by
    simp [markerByte, hseven]
  refine ⟨BigEndian.value ((bytes.drop 7).take 9), ?_, ?_⟩
  · have hlt := BigEndian.value_lt ((bytes.drop 7).take 9)
    rw [htail] at hlt
    exact hlt
  · change (BigEndian.decode128 bytes).toNat = _
    rw [BigEndian.toNat_decode128 hlength, hsplit, BigEndian.value_append, BigEndian.value_cons,
      List.length_cons, htail, hmarker, Nat.add_assoc]
    rfl

theorem toNat_timestamp_ofBytes (hlength : 16 ≤ bytes.length) :
    (ofBytes bytes).timestamp.toNat = BigEndian.value (bytes.take 6) := by
  have hbyte := markerByte_lt bytes
  have hfront := BigEndian.value_lt (bytes.take 6)
  rw [List.length_take, Nat.min_eq_left (by omega)] at hfront
  change _ < 2 ^ 48 at hfront
  obtain ⟨rest, hrest, hvalue⟩ := toNat_ofBytes hlength
  rw [toNat_timestamp, hvalue]
  omega

theorem toNat_version_ofBytes (hlength : 16 ≤ bytes.length) :
    (ofBytes bytes).version.toNat = markerByte bytes / 16 := by
  have hbyte := markerByte_lt bytes
  obtain ⟨rest, hrest, hvalue⟩ := toNat_ofBytes hlength
  rw [toNat_version, hvalue]
  omega

theorem toNat_variant_ofBytes (hlength : 16 ≤ bytes.length) :
    (ofBytes bytes).variant.toNat = markerByte bytes / 4 % 4 := by
  obtain ⟨rest, hrest, hvalue⟩ := toNat_ofBytes hlength
  rw [toNat_variant, hvalue]
  omega

theorem verdictAt_ofBytes (hlength : 16 ≤ bytes.length) (now tolerance : Nat) :
    (ofBytes bytes).verdictAt now tolerance = Verdict.ofBytes bytes now tolerance := by
  rw [verdictAt, toNat_version_ofBytes hlength, toNat_variant_ofBytes hlength,
    toNat_timestamp_ofBytes hlength]
  rfl

end Bytes

/-- The two-part test against the clock is one comparison with a sum that cannot
run over. -/
theorem ahead_iff {timestamp now tolerance : UInt64} :
    timestamp > now ∧ timestamp - now > tolerance ↔
      now.toNat + tolerance.toNat < timestamp.toNat := by
  rw [gt_iff_lt, gt_iff_lt, UInt64.lt_iff_toNat_lt, UInt64.lt_iff_toNat_lt]
  constructor
  · rintro ⟨hafter, hfar⟩
    rw [UInt64.toNat_sub_of_le _ _ (UInt64.le_of_lt (UInt64.lt_iff_toNat_lt.mpr hafter))] at hfar
    omega
  · intro hsum
    have hafter : now.toNat < timestamp.toNat := by omega
    rw [UInt64.toNat_sub_of_le _ _ (UInt64.le_of_lt (UInt64.lt_iff_toNat_lt.mpr hafter))]
    omega

theorem verdict_timeliness (token : Token) (tolerance now : UInt64) :
    (token.timeliness tolerance now).verdict =
      if now.toNat + tolerance.toNat < token.timestamp.toNat then .futureTimestamp
      else .valid := by
  rw [timeliness]
  by_cases hahead : now.toNat + tolerance.toNat < token.timestamp.toNat
  · rw [if_pos (ahead_iff.mpr hahead), if_pos hahead]
    rfl
  · rw [if_neg (mt ahead_iff.mp hahead), if_neg hahead]
    rfl

section Markers

variable {token : Token}

theorem verdict_of_wrong_version (hversion : token.version ≠ standardVersion) :
    token.markerFlaw = some (.wrongVersion token.version) ∧
      ∀ now tolerance, token.verdictAt now tolerance = .wrongVersion := by
  constructor
  · rw [markerFlaw, if_pos hversion]
  · intro now tolerance
    have hnumber : token.version.toNat ≠ 8 := fun heq => hversion (UInt64.toNat_inj.mp heq)
    rw [verdictAt, if_pos hnumber]

theorem verdict_of_wrong_variant (hversion : token.version = standardVersion)
    (hvariant : token.variant ≠ standardVariant) :
    token.markerFlaw = some (.wrongVariant token.variant) ∧
      ∀ now tolerance, token.verdictAt now tolerance = .wrongVariant := by
  constructor
  · rw [markerFlaw, if_neg (not_not_intro hversion), if_pos hvariant]
  · intro now tolerance
    have hmarker : ¬ token.version.toNat ≠ 8 := not_not_intro (congrArg UInt64.toNat hversion)
    have hnumber : token.variant.toNat ≠ 2 := fun heq => hvariant (UInt64.toNat_inj.mp heq)
    rw [verdictAt, if_neg hmarker, if_pos hnumber]

theorem verdict_of_marked (hversion : token.version = standardVersion)
    (hvariant : token.variant = standardVariant) :
    token.markerFlaw = none ∧
      ∀ now tolerance, token.verdictAt now tolerance =
        if now + tolerance < token.timestamp.toNat then .futureTimestamp else .valid := by
  constructor
  · rw [markerFlaw, if_neg (not_not_intro hversion), if_neg (not_not_intro hvariant)]
  · intro now tolerance
    have hmarker : ¬ token.version.toNat ≠ 8 := not_not_intro (congrArg UInt64.toNat hversion)
    have hnumber : ¬ token.variant.toNat ≠ 2 := not_not_intro (congrArg UInt64.toNat hvariant)
    rw [verdictAt, if_neg hmarker, if_neg hnumber]

end Markers

end Token

namespace Validator

variable {validator : Validator} {token : Token} {host later : Host}

/-- A flaw of the markers is found without a look at the clock. -/
theorem examine_of_flaw {flaw : Finding} (hflaw : token.markerFlaw = some flaw) :
    validator.examine token host = (.ok flaw, host) := by
  rw [examine, Token.examine, hflaw]
  rfl

theorem examine_of_reading (hmarked : token.markerFlaw = none) {now : UInt64}
    (hnow : validator.clock.now host = (.ok now, later)) :
    validator.examine token host = (.ok (token.timeliness validator.tolerance now), later) := by
  rw [examine, Token.examine, hmarked]
  exact Effect.bind_of_ok hnow

theorem examine_of_stop (hmarked : token.markerFlaw = none) {stop : Stop}
    (hnow : validator.clock.now host = (.error stop, later)) :
    validator.examine token host = (.error stop, later) := by
  rw [examine, Token.examine, hmarked]
  exact Effect.bind_of_error hnow

theorem validate_of_finding {finding : Finding}
    (hexamine : validator.examine token host = (.ok finding, later)) :
    validator.validate token host = (.ok finding.verdict, later) :=
  Effect.bind_of_ok hexamine

theorem validate_of_stop {stop : Stop}
    (hexamine : validator.examine token host = (.error stop, later)) :
    validator.validate token host = (.error stop, later) :=
  Effect.bind_of_error hexamine

theorem validateBuffer_of_error {buffer : Option Bytes} {length : UInt64}
    {error : Token.WireError} (hbuffer : Token.ofBuffer buffer length = .error error) :
    validator.validateBuffer buffer length host = (.ok .malformed, host) := by
  rw [validateBuffer, examineBuffer, Token.examineBuffer, hbuffer]
  rfl

/-- A buffer with a token in it is judged as the token. -/
theorem validateBuffer_of_ok {buffer : Option Bytes} {length : UInt64}
    (hbuffer : Token.ofBuffer buffer length = .ok token) :
    validator.validateBuffer buffer length = validator.validate token := by
  rw [validateBuffer, examineBuffer, Token.examineBuffer, hbuffer]
  rfl

theorem validate_of_reading {now : UInt64}
    (hnow : validator.clock.now host = (.ok now, later)) :
    (validator.validate token host).1 =
      .ok (token.verdictAt now.toNat validator.tolerance.toNat) := by
  by_cases hversion : token.version = Token.standardVersion
  · by_cases hvariant : token.variant = Token.standardVariant
    · obtain ⟨hmarked, hverdict⟩ := Token.verdict_of_marked hversion hvariant
      rw [validate_of_finding (examine_of_reading hmarked hnow), Token.verdict_timeliness, hverdict]
    · obtain ⟨hflaw, hverdict⟩ := Token.verdict_of_wrong_variant hversion hvariant
      rw [validate_of_finding (examine_of_flaw hflaw), hverdict]
      rfl
  · obtain ⟨hflaw, hverdict⟩ := Token.verdict_of_wrong_version hversion
    rw [validate_of_finding (examine_of_flaw hflaw), hverdict]
    rfl

theorem validateBuffer_of_reading {buffer : Option Bytes} {length : UInt64}
    (hspan : ∀ bytes, buffer = some bytes → length.toNat ≤ bytes.length) {now : UInt64}
    (hnow : validator.clock.now host = (.ok now, later)) :
    (validator.validateBuffer buffer length host).1 =
      .ok (Verdict.ofBuffer buffer length now.toNat validator.tolerance.toNat) := by
  cases buffer with
  | none =>
      obtain ⟨error, hbuffer⟩ := Token.ofBuffer_none length
      rw [validateBuffer_of_error hbuffer]
      rfl
  | some bytes =>
      rw [Verdict.ofBuffer]
      by_cases hlength : length = 16
      · subst hlength
        have hlong : 16 ≤ bytes.length := hspan bytes rfl
        rw [validateBuffer_of_ok (Token.ofBuffer_of_present bytes), validate_of_reading hnow,
          Token.verdictAt_ofBytes hlong, if_pos rfl]
      · rw [validateBuffer_of_error (Token.ofBuffer_of_wrong_length _ hlength), if_neg hlength]

/-- Under a clock that can be read, the verdict on a buffer is the one that its
bytes call for.  With the clock further on or with more tolerance, what was valid
is valid. -/
theorem verdict_spelled_by_bytes {buffer : Option Bytes} {length : UInt64}
    (hspan : ∀ bytes, buffer = some bytes → length.toNat ≤ bytes.length) :
    (∀ (validator : Validator) (host later : Host) (now : UInt64),
      validator.clock.now host = (.ok now, later) →
        (validator.validateBuffer buffer length host).1 =
          .ok (Verdict.ofBuffer buffer length now.toNat validator.tolerance.toNat)) ∧
    ∀ (validator other : Validator) (host later host' later' : Host) (now now' : UInt64),
      validator.clock.now host = (.ok now, later) →
        other.clock.now host' = (.ok now', later') →
          now ≤ now' → validator.tolerance ≤ other.tolerance →
            (validator.validateBuffer buffer length host).1 = .ok .valid →
              (other.validateBuffer buffer length host').1 = .ok .valid := by
  constructor
  · intro validator host later now hnow
    exact validateBuffer_of_reading hspan hnow
  · intro validator other host later host' later' now now' hnow hnow' hclock htolerance hvalid
    rw [validateBuffer_of_reading hspan hnow, Except.ok.injEq] at hvalid
    have hlimit : now.toNat + validator.tolerance.toNat ≤ now'.toNat + other.tolerance.toNat :=
      Nat.add_le_add (UInt64.le_iff_toNat_le.mp hclock) (UInt64.le_iff_toNat_le.mp htolerance)
    rw [validateBuffer_of_reading hspan hnow', Verdict.ofBuffer_valid_mono hlimit hvalid]

end Validator

/-- A host with one clock, which stands at this time. -/
def Host.showing (now : UInt64) : Host :=
  { Host.fresh (Log.fresh ⟨0, 0, 0⟩) ⟨[], [], [], [], []⟩ (Environment.ofIdentity default) with
    clocks := [.manual now] }

namespace Validator

/-- The latest timestamp is in time to the millisecond, and still is where clock
and tolerance add up to more than 64 bits. -/
theorem borderline_verdicts :
    let latest : Bytes := List.replicate 6 255 ++ 0x88 :: List.replicate 9 0
    let strict : Validator := ⟨.device 0, 0xfffffffffc17⟩
    let lax : Validator := ⟨.device 0, 0xffffffffffffffff⟩
    (∀ bytes, some latest = some bytes → (16 : UInt64).toNat ≤ bytes.length) ∧
      (strict.validateBuffer (some latest) 16 (Host.showing 999)).1 = .ok .futureTimestamp ∧
      (strict.validateBuffer (some latest) 16 (Host.showing 1000)).1 = .ok .valid ∧
      (lax.validateBuffer (some latest) 16 (Host.showing 0xffffffffffffffff)).1 =
        .ok .valid := by
  intro latest strict lax
  have hspan : ∀ bytes, some latest = some bytes → (16 : UInt64).toNat ≤ bytes.length := by
    rintro bytes ⟨⟩
    decide
  obtain ⟨hspelled, hmono⟩ := verdict_spelled_by_bytes hspan
  have hearly := hspelled strict (Host.showing 999) _ 999 rfl
  have hintime := hspelled strict (Host.showing 1000) _ 1000 rfl
  have hvalid : Verdict.ofBuffer (some latest) 16 1000 0xfffffffffc17 = .valid := by decide
  refine ⟨hspan, hearly.trans (by decide), hintime.trans (congrArg _ hvalid), ?_⟩
  exact hmono strict lax (Host.showing 1000) _ (Host.showing 0xffffffffffffffff) _ 1000
    0xffffffffffffffff rfl rfl (by decide) (by decide) (hintime.trans (congrArg _ hvalid))

end Validator

end TokenMint
