import PacketCore.Gtpu.Message

/-!
# Lossless framing

`Parts` is what one message is made of on the wire: a first octet, the optional
block, the extension chain and the payload.  The decoder accepts exactly the
byte strings of acceptable parts, the raw-preserving encoder writes those bytes
back, and the canonical encoder writes the parts with the received noise removed.
-/

namespace PacketCore.Gtpu

open Protocol GtpuMessage OptionalFields List

variable {current : Byte} {offset : ℕ} {rest tail : List Byte}
  {ctx : DecodeContext} {flag : Bool} {α : Type}

/-- An accepted header takes at least four octets, all of them present. -/
theorem takeExtension_le {taken : GtpuExtensionHeader × ℕ}
    (hok : takeExtension ctx current offset rest = .ok taken) :
    0 < taken.2 ∧ taken.2 ≤ rest.length := by
  obtain ⟨_, _, hok⟩ := bind_eq_ok hok
  obtain ⟨hunits, hok⟩ := refuseIf_bind hok
  obtain ⟨hroom, hok⟩ := refuseIf_bind hok
  obtain ⟨_, _, hok⟩ := bind_eq_ok hok
  cases hok
  omega

/-- The chain ends inside the message it was found in. -/
theorem walkExtensions_le {depth ies final : ℕ}
    (hwalk : walkExtensions ctx depth ies current offset rest = .ok final) :
    offset ≤ final ∧ final ≤ offset + rest.length := by
  induction depth generalizing ies offset current rest with
  | zero =>
    unfold walkExtensions at hwalk
    split at hwalk
    · cases hwalk
      omega
    · cases hwalk
  | succ _ ih =>
    unfold walkExtensions at hwalk
    split at hwalk
    · cases hwalk
      omega
    · cases ies with
      | zero => cases hwalk
      | succ =>
        obtain ⟨_, htake, hwalk⟩ := bind_eq_ok hwalk
        have hroom := takeExtension_le htake
        have hrest := ih hwalk
        rw [length_drop] at hrest
        omega

theorem Flags.any_of_seq {flags : Flags} (hset : flags.seq = true) : flags.any = true := by
  simp [Flags.any, hset]

theorem Flags.any_of_npdu {flags : Flags} (hset : flags.npdu = true) : flags.any = true := by
  simp [Flags.any, hset]

/-- The octets of the optional block. -/
def OptionalFields.bytes (fields : OptionalFields) : List Byte :=
  fields.sequence.bytes ++ [fields.npdu, fields.nextExt]

theorem OptionalFields.length_bytes (fields : OptionalFields) : fields.bytes.length = 4 := by
  simp [bytes]

section Optional

variable {flags : Flags}

/-- Four octets are an optional block. -/
theorem OptionalFields.exists_bytes (fields : OptionalFields) :
    ∃ s0 s1 : Byte, fields.sequence = Word.ofBytes 2 [s0, s1] ∧
      fields.bytes = [s0, s1, fields.npdu, fields.nextExt] := by
  obtain ⟨s0, s1, hsequence⟩ := length_eq_two.1 fields.sequence.length_bytes
  refine ⟨s0, s1, ?_, ?_⟩
  · rw [← hsequence, Word.ofBytes_bytes]
  · rw [bytes, hsequence]
    rfl

theorem decodeOptional_eq_ok {body : List Byte} {optional : Option OptionalFields} :
    decodeOptional ctx flags body = .ok (optional, rest) ↔
      body = (optional.map bytes).getD [] ++ rest ∧
        optional.isSome = flags.any ∧
        (2 ≤ validationStrictness ctx.validationLevel → flags.ext = true →
          (optional.map nextExt).getD 0 ≠ 0) := by
  constructor
  · intro hblock
    unfold decodeOptional at hblock
    split at hblock
    · next hany =>
      split at hblock
      · next s0 s1 _ nextExt _ =>
        obtain ⟨hnext, hblock⟩ := refuseIf_bind hblock
        cases hblock
        have hbytes : (Word.ofBytes 2 [s0, s1]).bytes = [s0, s1] := Word.bytes_ofBytes rfl
        refine ⟨?_, hany.symm, fun hstrict hext hzero => hnext ⟨hstrict, hext, hzero⟩⟩
        simp [bytes, hbytes]
      · cases hblock
    · next hany =>
      cases hblock
      have hext : flags.ext = false := by
        simp [Flags.any] at hany
        exact hany.1.1
      exact ⟨rfl, by simpa using hany, fun _ hset => by simp [hext] at hset⟩
  · rintro ⟨rfl, hsome, hnext⟩
    unfold decodeOptional
    cases optional with
    | none =>
      rw [if_neg (by simp [← hsome])]
      rfl
    | some fields =>
      obtain ⟨s0, s1, hsequence, hbytes⟩ := fields.exists_bytes
      have hallowed : ¬ (2 ≤ validationStrictness ctx.validationLevel ∧ flags.ext = true ∧
          fields.nextExt = 0) := fun ⟨hstrict, hext, hzero⟩ => hnext hstrict hext hzero
      have hany : flags.any = true := hsome.symm
      rw [if_pos hany]
      simp only [Option.map_some, Option.getD_some, hbytes, cons_append]
      rw [refuseIf, if_neg hallowed, ← hsequence]
      rfl

end Optional

/-- What a message is made of on the wire. -/
structure Parts where
  first : Byte
  messageType : Byte
  teid : Word 4
  optional : Option OptionalFields
  extensions : List Byte
  payload : List Byte

variable {parts : Parts}

namespace Parts

def flags (parts : Parts) : Flags := Flags.ofOctet parts.first

def block (parts : Parts) : List Byte := (parts.optional.map bytes).getD []

/-- What the length field counts. -/
def body (parts : Parts) : List Byte := parts.block ++ (parts.extensions ++ parts.payload)

def bytes (parts : Parts) : List Byte :=
  [parts.first, parts.messageType] ++ bigEndian 2 parts.body.length ++
    parts.teid.bytes ++ parts.body

def length (parts : Parts) : Word 2 := Fin.ofNat (256 ^ 2) parts.body.length

def message (parts : Parts) : GtpuMessage :=
  assemble parts.first parts.messageType parts.length parts.teid parts.optional
    parts.extensions parts.payload

def nextExt (parts : Parts) : Byte := (parts.optional.map OptionalFields.nextExt).getD 0

/-- What the decoder asks of the parts. -/
structure Accepted (ctx : DecodeContext) (parts : Parts) : Prop where
  version : parts.first.val / 32 = 1
  protocolType : parts.first.val / 16 % 2 = 1
  reserved : 2 ≤ validationStrictness ctx.validationLevel → parts.first.val / 8 % 2 = 0
  optional : parts.optional.isSome = parts.flags.any
  nextExt : 2 ≤ validationStrictness ctx.validationLevel →
    parts.flags.ext = true → parts.nextExt ≠ 0
  length : parts.body.length < 256 ^ 2
  chain : chainEnd ctx parts.flags parts.nextExt (parts.extensions ++ parts.payload) =
    .ok (12 + parts.extensions.length)

theorem length_bytes (parts : Parts) : parts.bytes.length = 8 + parts.body.length := by
  simp [bytes, length_bigEndian]
  omega

/-- The optional block is as long as the decoder counts it. -/
theorem length_block (haccepted : parts.Accepted ctx) :
    parts.block.length = if parts.flags.any then 4 else 0 := by
  have hsome := haccepted.optional
  unfold block
  cases hoptional : parts.optional with
  | none => simp [← hsome, hoptional]
  | some fields => simp [← hsome, hoptional, fields.length_bytes]

end Parts

section Decode

variable {first messageType : Byte} {length : Word 2} {teid : Word 4}

theorem decodeBody_eq_ok {body : List Byte} {message : GtpuMessage}
    (hok : decodeBody ctx first messageType length teid body = .ok message) :
    ∃ optional extensions payload,
      decodeOptional ctx (Flags.ofOctet first) body = .ok (optional, extensions ++ payload) ∧
      chainEnd ctx (Flags.ofOctet first)
        ((optional.map nextExt).getD 0) (extensions ++ payload) = .ok (12 + extensions.length) ∧
      message = assemble first messageType length teid optional extensions payload := by
  obtain ⟨⟨optional, rest⟩, _, hok⟩ := bind_eq_ok hok
  obtain ⟨final, hfinal, hok⟩ := bind_eq_ok hok
  obtain ⟨_, _, hok⟩ := bind_eq_ok hok
  cases hok
  have hend : 12 ≤ final ∧ final ≤ 12 + rest.length := by
    unfold chainEnd at hfinal
    split at hfinal
    · exact walkExtensions_le hfinal
    · cases hfinal
      omega
  refine ⟨optional, rest.take (final - 12), rest.drop (final - 12), ?_, ?_, rfl⟩
  · rwa [take_append_drop]
  · rw [take_append_drop, length_take]
    have hlength : 12 + min (final - 12) rest.length = final := by omega
    rw [hlength]
    exact hfinal

theorem decode_eq_ok {input : List Byte} {message : GtpuMessage}
    (hok : decode input ctx = .ok (tail, message)) :
    ∃ parts : Parts, parts.Accepted ctx ∧ input = parts.bytes ++ tail ∧
      input.length ≤ ctx.maxMessageLen ∧ message = parts.message := by
  obtain ⟨hlimit, hok⟩ := refuseIf_bind hok
  rw [not_lt] at hlimit
  split at hok
  · next first messageType l0 l1 t0 t1 t2 t3 rest _ =>
    obtain ⟨hversion, hok⟩ := refuseIf_bind hok
    obtain ⟨hprotocol, hok⟩ := refuseIf_bind hok
    obtain ⟨hreserved, hok⟩ := refuseIf_bind hok
    obtain ⟨hroom, hok⟩ := refuseIf_bind hok
    obtain ⟨message, hbody, hok⟩ := bind_eq_ok hok
    cases hok
    obtain ⟨optional, extensions, payload, hblock, hchain, rfl⟩ := decodeBody_eq_ok hbody
    obtain ⟨htaken, hsome, hnext⟩ := decodeOptional_eq_ok.1 hblock
    let parts : Parts :=
      ⟨first, messageType, Word.ofBytes 4 [t0, t1, t2, t3], optional, extensions, payload⟩
    have hlength : parts.body.length = (Word.ofBytes 2 [l0, l1]).val := by
      have hcount := congrArg length htaken
      rw [length_take] at hcount
      rw [show parts.body = (optional.map OptionalFields.bytes).getD [] ++
        (extensions ++ payload) from rfl, ← hcount]
      omega
    have hword : parts.length = Word.ofBytes 2 [l0, l1] := by
      apply Fin.ext
      rw [Parts.length, hlength]
      exact Nat.mod_eq_of_lt (Word.ofBytes 2 [l0, l1]).isLt
    refine ⟨parts, ⟨not_not.1 hversion, not_not.1 hprotocol, ?_, hsome, hnext, ?_, hchain⟩, ?_,
      hlimit, ?_⟩
    · intro hstrict
      by_contra hset
      exact hreserved ⟨hstrict, hset⟩
    · rw [hlength]
      exact (Word.ofBytes 2 [l0, l1]).isLt
    · have hl : bigEndian 2 parts.body.length = [l0, l1] := by
        rw [hlength]
        exact Word.bytes_ofBytes rfl
      have ht : parts.teid.bytes = [t0, t1, t2, t3] := Word.bytes_ofBytes rfl
      have hbody : parts.body = rest.take (Word.ofBytes 2 [l0, l1]).val := htaken.symm
      rw [Parts.bytes, hl, ht, hbody, append_assoc, take_append_drop]
      rfl
    · rw [Parts.message, hword]
  · cases hok

theorem val_length (haccepted : parts.Accepted ctx) : parts.length.val = parts.body.length :=
  Nat.mod_eq_of_lt haccepted.length

theorem decodeBody_body (haccepted : parts.Accepted ctx) :
    decodeBody ctx parts.first parts.messageType parts.length parts.teid parts.body =
      .ok parts.message := by
  have hblock : decodeOptional ctx (Flags.ofOctet parts.first) parts.body =
      .ok (parts.optional, parts.extensions ++ parts.payload) :=
    decodeOptional_eq_ok.2 ⟨rfl, haccepted.optional, haccepted.nextExt⟩
  have hchain : chainEnd ctx (Flags.ofOctet parts.first)
      ((parts.optional.map OptionalFields.nextExt).getD 0) (parts.extensions ++ parts.payload) =
        .ok (12 + parts.extensions.length) := haccepted.chain
  have hfits : ¬ parts.length.val < (if (Flags.ofOctet parts.first).any then 4 else 0) +
      parts.extensions.length := by
    rw [val_length haccepted, Parts.body, length_append, length_append,
      Parts.length_block haccepted, Parts.flags]
    omega
  simp only [decodeBody, hblock, ok_bind, hchain, Nat.add_sub_cancel_left,
    refuseIf, if_neg hfits, take_left, drop_left]
  rfl

/-- The decoder accepts the bytes of acceptable parts. -/
theorem decode_bytes (haccepted : parts.Accepted ctx)
    (hlimit : (parts.bytes ++ tail).length ≤ ctx.maxMessageLen) :
    decode (parts.bytes ++ tail) ctx = .ok (tail, parts.message) := by
  obtain ⟨l0, l1, hl⟩ := length_eq_two.1 (length_bigEndian 2 _)
  obtain ⟨t0, t1, t2, t3, ht⟩ := length_eq_four.1 parts.teid.length_bytes
  have hword : Word.ofBytes 2 [l0, l1] = parts.length := by
    rw [← hl, Word.ofBytes, fromBigEndian_bigEndian haccepted.length, Parts.length]
  have hval := val_length haccepted
  have hteid : Word.ofBytes 4 [t0, t1, t2, t3] = parts.teid := by
    rw [← ht, Word.ofBytes_bytes]
  have hbytes : parts.bytes ++ tail = parts.first :: parts.messageType :: l0 :: l1 :: t0 :: t1 ::
      t2 :: t3 :: (parts.body ++ tail) := by
    rw [Parts.bytes, hl, ht]
    simp
  have hbody := decodeBody_body haccepted
  rw [hbytes] at hlimit ⊢
  unfold decode
  have hreserved : ¬ (2 ≤ validationStrictness ctx.validationLevel ∧
      parts.first.val / 8 % 2 ≠ 0) := fun hset => hset.2 (haccepted.reserved hset.1)
  simp only [hword, hteid, hval, refuseIf, if_neg hlimit.not_gt, haccepted.version,
    haccepted.protocolType, if_neg hreserved, ne_eq, not_true, if_false,
    length_append, not_lt.2 (Nat.le_add_right _ _), take_left, drop_left,
    hbody, ok_bind, pure_eq_ok]

end Decode

/-- In this mode the encoder announces and appends exactly `bytes`, unless the
context has no room for them. -/
def GtpuMessage.Emits (message : GtpuMessage) (rawPreserving : Bool) (bytes : List Byte) : Prop :=
  ∀ ctx : EncodeContext, ctx.rawPreserving = rawPreserving →
    message.wireLen ctx = .ok bytes.length ∧
      ∀ dst, message.encode dst ctx = do
        ctx.checkCapacity bytes.length
        return dst ++ bytes

theorem okOr_checkedAdd {ε : Type} {value amount : ℕ} {fault : ε}
    (hfits : value + amount < 2 ^ 64) :
    okOr (checkedAdd value amount) fault = .ok (value + amount) := by
  rw [checkedAdd, if_pos hfits]
  rfl

/-- What the encoder appends when the length field can hold the body. -/
theorem GtpuMessage.emits_of_length {message : GtpuMessage} {rawPreserving : Bool}
    {body : List Byte} (hbody : body = message.encodedOptional rawPreserving ++
      (message.rawExtensionHeaders ++ message.payload)) (hlength : body.length < 256 ^ 2) :
    message.Emits rawPreserving
      ([message.firstOctet rawPreserving, message.header.messageType] ++
        bigEndian 2 body.length ++ message.header.teid.bytes ++ body) := by
  rintro ctx rfl
  have hblock : (message.encodedOptional ctx.rawPreserving).length =
      if (message.encodedFlags ctx.rawPreserving).any then 4 else 0 := by
    unfold encodedOptional
    split
    · split <;> simp
    · rfl
  have hcount : body.length = (if (message.encodedFlags ctx.rawPreserving).any then 4 else 0) +
      message.rawExtensionHeaders.length + message.payload.length := by
    rw [hbody, length_append, length_append]
    omega
  have hbytes : ([message.firstOctet ctx.rawPreserving, message.header.messageType] ++
      bigEndian 2 body.length ++ message.header.teid.bytes ++ body).length = 8 + body.length := by
    simp only [length_append, length_bigEndian, Word.length_bytes, length_cons, length_nil]
  have hwire : message.wireLen ctx = .ok (8 + body.length) := by
    unfold wireLen
    have hfixed : (if (message.encodedFlags ctx.rawPreserving).any then
        okOr (checkedAdd 8 4) lengthOverflow else .ok 8) =
          .ok (8 + if (message.encodedFlags ctx.rawPreserving).any then 4 else 0) := by
      split
      · exact okOr_checkedAdd (by norm_num)
      · rfl
    rw [hfixed, ok_bind, okOr_checkedAdd (by omega), ok_bind,
      okOr_checkedAdd (by omega), hcount, Nat.add_assoc, Nat.add_assoc, Nat.add_assoc]
  refine ⟨by rw [hwire, hbytes], fun dst => ?_⟩
  unfold encode
  rw [hwire, ok_bind, hbytes]
  congr 1
  have hsub : checkedSub (8 + body.length) 8 = some body.length := by
    rw [checkedSub, if_pos (by omega), Nat.add_sub_cancel_left]
  rw [hsub, okOr, ok_bind, refuseIf, if_neg (by omega), ok_bind, hbody]
  simp only [append_assoc]

/-- The first octet of a received message, put together again. -/
theorem firstOctet_assemble (parts : Parts) : parts.message.firstOctet true = parts.first := by
  apply Fin.ext
  simp only [firstOctet, encodedFlags, Parts.message, assemble,
    Flags.ofOctet, Flags.bits, if_true, Fin.val_ofNat, decide_eq_true_eq]
  split <;> split <;> split <;> split <;> omega

/-- The raw-preserving encoder writes back what was decoded. -/
theorem Parts.emits_raw (haccepted : parts.Accepted ctx) :
    parts.message.Emits true parts.bytes := by
  have hoptional : parts.message.encodedOptional true = parts.block := by
    have hsome := haccepted.optional
    have hflags : parts.message.encodedFlags true = parts.flags := rfl
    unfold encodedOptional Parts.block
    cases hfields : parts.optional with
    | none =>
      rw [hfields] at hsome
      rw [hflags, ← hsome]
      rfl
    | some =>
      rw [hflags, ← hsome]
      simp [Parts.message, assemble, hfields, OptionalFields.bytes]
  have hemits : parts.message.Emits true
      ([parts.message.firstOctet true, parts.message.header.messageType] ++
        bigEndian 2 parts.body.length ++ parts.message.header.teid.bytes ++ parts.body) :=
    emits_of_length (by rw [hoptional]; rfl) haccepted.length
  rwa [firstOctet_assemble] at hemits

namespace Parts

/-- The type of the first extension header, zero when there is none. -/
def firstExt (parts : Parts) : Byte := if parts.flags.ext then parts.nextExt else 0

/-- The flags that the fields call for. -/
def canonicalFlags (parts : Parts) : Flags :=
  ⟨parts.firstExt ≠ 0, parts.flags.seq, parts.flags.npdu⟩

/-- The parts without spare bits, unflagged fields and an empty chain. -/
def canonical (parts : Parts) : Parts where
  first := Fin.ofNat 256 (0x30 + parts.canonicalFlags.bits)
  messageType := parts.messageType
  teid := parts.teid
  optional :=
    if parts.canonicalFlags.any then
      some ⟨parts.message.header.sequenceNumber.getD 0,
        parts.message.header.npduNumber.getD 0, parts.firstExt⟩
    else none
  extensions := parts.extensions
  payload := parts.payload

theorem flags_canonical (parts : Parts) : parts.canonical.flags = parts.canonicalFlags := by
  have hall : ∀ ext seq npdu : Bool,
      Flags.ofOctet (Fin.ofNat 256 (0x30 + Flags.bits ⟨ext, seq, npdu⟩)) = ⟨ext, seq, npdu⟩ := by
    decide
  exact hall _ _ _

theorem nextExt_canonical (parts : Parts) : parts.canonical.nextExt = parts.firstExt := by
  unfold nextExt canonical
  by_cases hany : parts.canonicalFlags.any
  · simp [hany]
  · have hnone : parts.firstExt = 0 := by
      simp [Flags.any, canonicalFlags] at hany
      exact hany.1.1
    simp [hany, hnone]

/-- Without a first type there is no chain. -/
theorem extensions_eq_nil (haccepted : parts.Accepted ctx)
    (hnone : parts.firstExt = 0) : parts.extensions = [] := by
  have hchain := haccepted.chain
  have hend : (Except.ok 12 : Except DecodeError ℕ) = .ok (12 + parts.extensions.length) := by
    rw [← hchain, chainEnd]
    split
    · next hext =>
      rw [firstExt, if_pos hext] at hnone
      rw [hnone]
      unfold walkExtensions
      rw [if_pos rfl]
    · rfl
  apply eq_nil_of_length_eq_zero
  have hlength : 12 = 12 + parts.extensions.length := Except.ok.inj hend
  omega

theorem optional_canonical (hany : parts.canonicalFlags.any = true) :
    parts.canonical.optional =
      some ⟨parts.message.header.sequenceNumber.getD 0,
        parts.message.header.npduNumber.getD 0, parts.firstExt⟩ :=
  if_pos hany

/-- Every flag that stays was set. -/
theorem any_of_canonical (hany : parts.canonicalFlags.any = true) : parts.flags.any = true := by
  simp only [Flags.any, canonicalFlags, firstExt, Bool.or_eq_true] at hany ⊢
  obtain (hext | hseq) | hnpdu := hany
  · split at hext
    · next hset => exact .inl (.inl hset)
    · simp at hext
  · exact .inl (.inr hseq)
  · exact .inr hnpdu

theorem length_body_canonical (haccepted : parts.Accepted ctx) :
    parts.canonical.body.length ≤ parts.body.length := by
  have hblock : parts.canonical.block.length = if parts.canonicalFlags.any then 4 else 0 := by
    unfold block canonical
    split
    · simp [OptionalFields.length_bytes]
    · rfl
  have hwas := length_block haccepted
  have hext : parts.canonical.extensions = parts.extensions := rfl
  have hpayload : parts.canonical.payload = parts.payload := rfl
  have hkept : parts.canonical.block.length ≤ parts.block.length := by
    rw [hblock, hwas]
    split
    · next hset => rw [if_pos (any_of_canonical hset)]
    · omega
  simp only [body, length_append, hext, hpayload]
  omega

/-- The canonical parts are acceptable wherever the received ones were. -/
theorem Accepted.canonical (haccepted : parts.Accepted ctx) : parts.canonical.Accepted ctx := by
  have hflags := parts.flags_canonical
  have hnext := parts.nextExt_canonical
  have hhigh : ∀ flags : Flags, (Fin.ofNat 256 (0x30 + flags.bits) : Byte).val / 32 = 1 ∧
      (Fin.ofNat 256 (0x30 + flags.bits) : Byte).val / 16 % 2 = 1 ∧
      (Fin.ofNat 256 (0x30 + flags.bits) : Byte).val / 8 % 2 = 0 := by
    rintro ⟨ext, seq, npdu⟩
    revert ext seq npdu
    decide
  obtain ⟨hversion, hprotocol, hreserved⟩ := hhigh _
  refine ⟨hversion, hprotocol, fun _ => hreserved, ?_, ?_, ?_, ?_⟩
  · rw [hflags]
    unfold Parts.canonical
    by_cases hany : parts.canonicalFlags.any <;> simp [hany]
  · intro _ hext
    rw [hflags] at hext
    rw [hnext]
    simpa [canonicalFlags] using hext
  · exact lt_of_le_of_lt (length_body_canonical haccepted) haccepted.length
  · rw [hflags, hnext]
    by_cases hnone : parts.firstExt = 0
    · have hempty := extensions_eq_nil haccepted hnone
      have hnil : parts.canonical.extensions = [] := hempty
      rw [hnil, chainEnd, if_neg (by simp [canonicalFlags, hnone])]
      rfl
    · have hchain := haccepted.chain
      have hext : parts.flags.ext = true := by
        by_contra hclear
        exact hnone (if_neg hclear)
      rw [chainEnd, if_pos hext] at hchain
      rw [chainEnd, if_pos (by simp [canonicalFlags, hnone]), firstExt, if_pos hext]
      exact hchain

theorem nextExtType_getD (parts : Parts) :
    parts.message.header.nextExtType.getD 0 = parts.firstExt := by
  have hfield : parts.message.header.nextExtType =
      if parts.flags.ext then parts.optional.map OptionalFields.nextExt else none := rfl
  rw [hfield, firstExt]
  split <;> rfl

theorem firstExt_canonical (parts : Parts) : parts.canonical.firstExt = parts.firstExt := by
  rw [firstExt, flags_canonical, nextExt_canonical]
  by_cases hnone : parts.firstExt = 0 <;> simp [canonicalFlags, hnone]

theorem canonicalFlags_canonical (parts : Parts) :
    parts.canonical.canonicalFlags = parts.canonicalFlags := by
  rw [canonicalFlags, firstExt_canonical, flags_canonical]
  rfl

/-- The extension iterator starts from the same octets and type. -/
theorem extensions_canonical (parts : Parts) :
    parts.canonical.message.extensions = parts.message.extensions := by
  have hitems : ∀ other : Parts, other.message.extensions =
      iterateExtensions (other.extensions.length + 1) other.extensions other.firstExt := by
    intro other
    have hstart : (if other.message.header.flags.ext then other.message.header.nextExtType.getD 0
        else 0) = other.firstExt := by
      rw [nextExtType_getD]
      unfold firstExt
      split <;> split <;> first | rfl | contradiction
    rw [← hstart]
    rfl
  rw [hitems, hitems, firstExt_canonical]
  rfl

/-- A field that is rewritten from its own value is unchanged. -/
theorem flagged_rewritten {value : α} {rewritten field : Option α} (hfield : field.isSome = flag)
    (hrewritten : flag = true → rewritten = some (field.getD value)) :
    (if flag then rewritten else none) = field := by
  subst hfield
  cases field with
  | none => rfl
  | some => exact hrewritten rfl

section

variable (haccepted : parts.Accepted ctx)
include haccepted

/-- A field is there exactly under its flag. -/
theorem isSome_flagged (field : OptionalFields → α) (hflag : flag = true → parts.flags.any = true) :
    (if flag then parts.optional.map field else none).isSome = flag := by
  cases hset : flag with
  | true =>
    obtain ⟨_, hfields⟩ := Option.isSome_iff_exists.mp (haccepted.optional.trans (hflag hset))
    simp [hfields]
  | false => rfl

theorem isSome_sequenceNumber : parts.message.header.sequenceNumber.isSome = parts.flags.seq :=
  isSome_flagged haccepted _ Flags.any_of_seq

theorem isSome_npduNumber : parts.message.header.npduNumber.isSome = parts.flags.npdu :=
  isSome_flagged haccepted _ Flags.any_of_npdu

theorem encodedFlags_message : parts.message.encodedFlags false = parts.canonicalFlags := by
  have hext : (decide (parts.message.rawExtensionHeaders ≠ []) ||
      decide (parts.message.header.nextExtType.getD 0 ≠ 0)) = decide (parts.firstExt ≠ 0) := by
    rw [nextExtType_getD]
    by_cases hnone : parts.firstExt = 0
    · have hempty : parts.message.rawExtensionHeaders = [] := extensions_eq_nil haccepted hnone
      simp [hempty]
    · simp [hnone]
  have hseq := isSome_sequenceNumber haccepted
  have hnpdu := isSome_npduNumber haccepted
  simp only [encodedFlags, hext, hseq, hnpdu]
  rfl

/-- The canonical encoder writes the canonical parts. -/
theorem emits_canonical : parts.message.Emits false parts.canonical.bytes := by
  have hflags := encodedFlags_message haccepted
  have hfirst : parts.message.firstOctet false = parts.canonical.first := by
    rw [firstOctet, hflags]
    rfl
  have hoptional : parts.message.encodedOptional false = parts.canonical.block := by
    rw [encodedOptional, hflags, nextExtType_getD]
    unfold block canonical
    split <;> rfl
  have hemits : parts.message.Emits false
      ([parts.message.firstOctet false, parts.message.header.messageType] ++
        bigEndian 2 parts.canonical.body.length ++
          parts.message.header.teid.bytes ++ parts.canonical.body) :=
    emits_of_length (by rw [hoptional]; rfl) haccepted.canonical.length
  rwa [hfirst] at hemits

theorem sequenceNumber_canonical :
    parts.canonical.message.header.sequenceNumber = parts.message.header.sequenceNumber := by
  have hfield : parts.canonical.message.header.sequenceNumber =
      if parts.canonical.flags.seq then parts.canonical.optional.map sequence else none := rfl
  rw [hfield, flags_canonical]
  apply flagged_rewritten (isSome_sequenceNumber haccepted)
  intro hset
  rw [optional_canonical (Flags.any_of_seq hset)]
  rfl

theorem npduNumber_canonical :
    parts.canonical.message.header.npduNumber = parts.message.header.npduNumber := by
  have hfield : parts.canonical.message.header.npduNumber =
      if parts.canonical.flags.npdu then parts.canonical.optional.map npdu else none := rfl
  rw [hfield, flags_canonical]
  apply flagged_rewritten (isSome_npduNumber haccepted)
  intro hset
  rw [optional_canonical (Flags.any_of_npdu hset)]
  rfl

/-- There is nothing more to remove. -/
theorem canonical_canonical : parts.canonical.canonical = parts.canonical := by
  rw [canonical, canonicalFlags_canonical, sequenceNumber_canonical haccepted,
    npduNumber_canonical haccepted, firstExt_canonical]
  rfl

end

end Parts

/-- Framing is lossless.  The raw-preserving encoder gives back the octets that
were decoded.  The canonical encoder gives octets that the same decoder accepts
whole, as a message with the same type, tunnel, numbers, extensions and payload,
and that the canonical encoder keeps. -/
theorem framing_lossless {ctx : DecodeContext} {input tail : List Byte}
    {message : GtpuMessage} (hdecode : decode input ctx = .ok (tail, message)) :
    (∃ consumed, input = consumed ++ tail ∧ message.Emits true consumed) ∧
      ∃ canonical again, message.Emits false canonical ∧
        decode canonical ctx = .ok ([], again) ∧
        again.header.messageType = message.header.messageType ∧
        again.header.teid = message.header.teid ∧
        again.header.sequenceNumber = message.header.sequenceNumber ∧
        again.header.npduNumber = message.header.npduNumber ∧
        again.extensions = message.extensions ∧
        again.payload = message.payload ∧
        again.Emits false canonical := by
  obtain ⟨parts, haccepted, rfl, hlimit, rfl⟩ := decode_eq_ok hdecode
  refine ⟨⟨parts.bytes, rfl, parts.emits_raw haccepted⟩, parts.canonical.bytes,
    parts.canonical.message, Parts.emits_canonical haccepted, ?_, rfl, rfl,
    Parts.sequenceNumber_canonical haccepted,
    Parts.npduNumber_canonical haccepted, parts.extensions_canonical, rfl, ?_⟩
  · have hshort : (parts.canonical.bytes ++ []).length ≤ ctx.maxMessageLen := by
      have hbody := Parts.length_body_canonical haccepted
      rw [length_append, Parts.length_bytes] at hlimit
      rw [append_nil, Parts.length_bytes]
      omega
    simpa using decode_bytes haccepted.canonical hshort
  · have hemits := Parts.emits_canonical haccepted.canonical
    rwa [Parts.canonical_canonical haccepted] at hemits

/-- A user packet with the spare bit set, an unflagged N-PDU octet and a PDU
session container, and one octet of the next datagram. -/
def noisyPacket : List Byte :=
  [0x3e, 0xff, 0, 9, 0, 0, 0, 7, 0, 1, 0x7f, 0x85, 1, 0, 9, 0, 0xaa, 0xbb]

def lenient : DecodeContext := ⟨8, 128, 2048, .preserve, .structural⟩

theorem framing_lossless_noisyPacket :
    ∃ message, decode noisyPacket lenient = .ok ([0xbb], message) ∧
      (∃ consumed, noisyPacket = consumed ++ [0xbb] ∧ message.Emits true consumed) ∧
      ∃ canonical again, message.Emits false canonical ∧
        decode canonical lenient = .ok ([], again) ∧
        again.extensions = message.extensions := by
  have hdecode : decode noisyPacket lenient =
      .ok ([0xbb], assemble 0x3e 0xff 9 7 (some ⟨1, 0x7f, 0x85⟩) [1, 0, 9, 0] [0xaa]) := by
    rfl
  obtain ⟨hraw, canonical, again, hemits, hagain, _, _, _, _, hextensions, _⟩ :=
    framing_lossless hdecode
  exact ⟨_, hdecode, hraw, canonical, again, hemits, hagain, hextensions⟩

end PacketCore.Gtpu
