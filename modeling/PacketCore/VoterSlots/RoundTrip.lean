import PacketCore.VoterSlots.Durable
import PacketCore.VoterSlots.Validity

/-!
# What is stored is read back

The readers invert the writers field by field.  Every valid attestation, table
and durable state fits its size limit, so that encoding a valid state succeeds
and decoding the bytes gives the state back.
-/

namespace PacketCore.VoterSlots

open Writer LostVoterAttestationV1 List

variable {bound width : ℕ} {α : Type} {op : VoterReplacementRecord} {table : VoterSlotTable}

/-- A size limit that is kept. -/
theorem fits_eq_ok {length : ℕ} (fault : VoterSlotError)
    (hfits : length ≤ bound) : refuseIf (bound < length) fault = .ok () :=
  refuseIf_eq_ok.mpr (not_lt.mpr hfits)

/-! ## Fields -/

/-- A text with its length in front. -/
def Writer.text (text : Text) : List Byte := u16 text.utf8.length ++ text.utf8

namespace Writer

@[simp] theorem length_u8 (value : ℕ) : (u8 value).length = 1 := length_bigEndian 1 value
@[simp] theorem length_u16 (value : ℕ) : (u16 value).length = 2 := length_bigEndian 2 value
@[simp] theorem length_u64 (value : ℕ) : (u64 value).length = 8 := length_bigEndian 8 value

@[simp] theorem length_text (text : Text) : (Writer.text text).length = 2 + text.len := by
  simp [Writer.text, Text.len]

end Writer

theorem VoterIncarnation.fits (value : VoterIncarnation) : value.value < 2 ^ 64 := by
  have hbounded := value.bounded
  unfold maxVoterIncarnation at hbounded
  omega

variable {read : Reader VoterSlotError α} {value : VoterConfiguration} {write : α → List Byte}

namespace Input

theorem reads_u8 {value : ℕ} (hvalue : value < 256) : Reads u8 (Writer.u8 value) value :=
  Reads.number (by simpa using hvalue)

theorem reads_u16 (value : Fin (2 ^ 16)) : Reads u16 (Writer.u16 value.val) value := by
  have hread : Reads u16 (Writer.u16 value.val) (Fin.ofNat (2 ^ 16) value.val) :=
    (Reads.number (show value.val < 256 ^ 2 from value.isLt)).last
  simpa using hread

theorem reads_u64 (value : Fin (2 ^ 64)) : Reads u64 (Writer.u64 value.val) value := by
  have hread : Reads u64 (Writer.u64 value.val) (Fin.ofNat (2 ^ 64) value.val) :=
    (Reads.number (show value.val < 256 ^ 8 from value.isLt)).last
  simpa using hread

theorem reads_array (value : Octets width) : Reads (array width) value.toList value :=
  Reads.octets _

theorem reads_epoch (value : ConsensusConfigurationEpoch) :
    Reads epoch (Writer.u64 value.value) value := by
  refine (reads_u64 ⟨value.value, value.bounded⟩).checked ?_
  simp [ConsensusConfigurationEpoch.new, value.positive.ne']

theorem reads_incarnation (value : VoterIncarnation) :
    Reads incarnation (Writer.u64 value.value) value := by
  refine (reads_u64 ⟨value.value, value.fits⟩).checked ?_
  simp [VoterIncarnation.new, value.positive, value.bounded]

theorem reads_slotId (value : SlotId) : Reads slotId (Writer.u16 value.value) value := by
  refine (reads_u16 ⟨value.value, value.bounded⟩).checked ?_
  simp [SlotId.new, value.positive.ne']

theorem reads_identity (value : VoterSlotIdentity) : Reads identity (Writer.identity value) value :=
  (reads_slotId _).bind (reads_incarnation _).last

theorem reads_binding (value : VoterSlotMember) :
    Reads (binding value.identity) (Writer.binding value) value :=
  (reads_array _).bind ((reads_array _).bind (reads_u64 _).last)

theorem reads_member (value : VoterSlotMember) : Reads member (Writer.member value) value :=
  (reads_identity _).bind (reads_binding _)

theorem reads_count {count : ℕ} (hcount : validateCount count = .ok ()) :
    Reads Input.count (Writer.u8 count) count := by
  have hsmall : count < 256 := by
    have hbound := (require_eq_ok.mp hcount).2.1
    unfold maxFixedVoterSlots at hbound
    omega
  have hchecked : Reads (do StateT.lift (validateCount count); return count) [] count :=
    Reads.guard hcount (Reads.pure _)
  exact (reads_u8 hsmall).bind hchecked

theorem reads_configuration (hcount : validateCount value.members.length = .ok ()) :
    Reads configuration (Writer.configuration value) value :=
  (reads_epoch _).bind ((reads_count hcount).bind (Reads.repeated fun _ _ => reads_member _).last)

theorem reads_tagged {meaning : ℕ → Option α} {code : ℕ} {value : α} (hcode : code < 256)
    (hmeaning : meaning code = some value) : Reads (tagged meaning) (Writer.u8 code) value := by
  refine (reads_u8 hcode).checked ?_
  simp [hmeaning]

theorem reads_optional {value : Option α}
    (hread : ∀ inner ∈ value, Reads read (write inner) inner) :
    Reads (optional read) (Writer.optional write value) value := by
  cases value with
  | none =>
    have hpresent : Reads (tagged fun code =>
        if code = 0 then some false else if code = 1 then some true else none)
        (Writer.u8 0) false := reads_tagged (by decide) rfl
    rw [Writer.optional, ← append_nil (Writer.u8 0)]
    exact hpresent.bind (Reads.pure _)
  | some =>
    have hpresent : Reads (tagged fun code =>
        if code = 0 then some false else if code = 1 then some true else none)
        (Writer.u8 1) true := reads_tagged (by decide) rfl
    exact hpresent.bind (hread _ rfl).last

theorem reads_logId (value : VoterSlotLogId) : Reads logId (Writer.logId value) value :=
  (reads_u64 _).bind (reads_u64 _).last

theorem reads_sizedBytes {bytes : List Byte} (hlength : bytes.length < 2 ^ 16)
    (hbound : bytes.length ≤ bound) :
    Reads (sizedBytes bound) (Writer.u16 bytes.length ++ bytes) bytes :=
  (reads_u16 ⟨bytes.length, hlength⟩).bind (Reads.guard (fits_eq_ok _ hbound) (Reads.take rfl))

/-- UTF-8 bytes are read back as the text they were written for. -/
theorem fromUtf8_utf8 (text : Text) : fromUtf8 text.utf8 = some text := by
  have hinverse : UInt8.ofFin ∘ UInt8.toFin = id := by
    funext byte
    simp
  have hbytes : (text.utf8.map UInt8.ofFin).toByteArray = text.utf8Encode := by
    unfold Text.utf8 utf8Encode
    rw [map_map, hinverse, map_id]
  unfold fromUtf8
  rw [hbytes]
  simp

theorem reads_string {text : Text} (hlength : text.len < 2 ^ 16)
    (hbound : text.len ≤ bound) : Reads (string bound) (Writer.text text) text := by
  refine (reads_sizedBytes hlength hbound).checked ?_
  simp [fromUtf8_utf8]

theorem complete_eq_ok {bytes : List Byte} {value : α}
    (hread : Reads read bytes value) : complete read bytes = .ok value := by
  have hrun := hread []
  rw [append_nil] at hrun
  unfold complete
  rw [hrun]
  rfl

end Input

/-- What a sized field writes. -/
theorem Writer.sizedBytes_eq_ok {bytes : List Byte} (hlength : bytes.length < 2 ^ 16) :
    sizedBytes bytes = .ok (u16 bytes.length ++ bytes) := by
  unfold sizedBytes
  rw [show refuseIf _ _ = .ok () from refuseIf_eq_ok.mpr (not_le.mpr hlength),
    ok_bind, pure_eq_ok]

/-! ## Attestations -/

namespace LostVoterAttestationV1

variable {claims : LostVoterAttestationV1}

/-- The complete layout, field by field. -/
def bytes (claims : LostVoterAttestationV1) : List Byte :=
  u16 version ++ (claims.requestId.toList ++ (claims.requestDigest.toList ++
    (claims.clusterInstance.toList ++ (u16 claims.slot.value ++
      (u64 claims.expectedIncarnation.value ++ (claims.oldDescriptorDigest.toList ++
        (claims.candidateKeyDigest.toList ++ (u64 claims.admissionGeneration.val ++
          (text claims.candidateSpiffeId ++ (text claims.controllerSpiffeId ++
            (claims.signingKeyDigest.toList ++ (u8 claims.reason.code ++
              (claims.policyDigest.toList ++ (u64 claims.observationStartMs.val ++
                (u64 claims.decisionMs.val ++ (u64 claims.issuedMs.val ++
                  (u64 claims.expiresMs.val ++ claims.signature.toList)))))))))))))))))

/-- A valid attestation has short workload names. -/
theorem len_le_of_validate (hvalid : claims.validate = .ok ()) :
    claims.candidateSpiffeId.len ≤ maxVoterSpiffeIdBytes ∧
      claims.controllerSpiffeId.len ≤ maxVoterSpiffeIdBytes := by
  obtain ⟨_, hcandidate, hrest⟩ := bind_eq_ok hvalid
  obtain ⟨_, hcontroller, _⟩ := bind_eq_ok hrest
  obtain ⟨_, hcandidate, _⟩ := bind_eq_ok hcandidate
  obtain ⟨_, hcontroller, _⟩ := bind_eq_ok hcontroller
  rw [refuseIf_eq_ok, not_lt] at hcandidate hcontroller
  exact ⟨hcandidate, hcontroller⟩

theorem length_bytes_le (hvalid : claims.validate = .ok ()) :
    claims.bytes.length ≤ maxLostVoterAttestationBytes := by
  obtain ⟨hcandidate, hcontroller⟩ := len_le_of_validate hvalid
  unfold maxVoterSpiffeIdBytes at hcandidate hcontroller
  simp only [bytes, length_append, List.Vector.toList_length, Writer.length_u8,
    Writer.length_u16, Writer.length_u64, Writer.length_text, maxLostVoterAttestationBytes]
  omega

/-- A valid attestation is written field by field. -/
theorem encode_eq_ok (hvalid : claims.validate = .ok ()) :
    encodeLostVoterAttestation claims = .ok claims.bytes := by
  obtain ⟨hcandidate, hcontroller⟩ := len_le_of_validate hvalid
  have hsized : ∀ text : Text, text.len ≤ maxVoterSpiffeIdBytes →
      sizedBytes text.utf8 = .ok (Writer.text text) :=
    fun text hlen => sizedBytes_eq_ok (lt_of_le_of_lt hlen (by decide))
  have hlayout : (u16 version ++ (claims.requestId.toList ++ (claims.requestDigest.toList ++
      (Writer.claims claims ++ (text claims.candidateSpiffeId ++
        (text claims.controllerSpiffeId ++ Writer.decision claims)))))) ++
      claims.signature.toList = claims.bytes := by
    simp only [bytes, Writer.claims, Writer.decision, append_assoc]
  unfold encodeLostVoterAttestation unsignedClaims
  rw [hvalid, hsized _ hcandidate, hsized _ hcontroller]
  simp only [pure_eq_ok, ok_bind, if_true]
  rw [hlayout, fits_eq_ok _ (length_bytes_le hvalid), ok_bind]

theorem reads_bytes (hvalid : claims.validate = .ok ()) :
    Reads Input.attestation claims.bytes claims := by
  obtain ⟨hcandidate, hcontroller⟩ := len_le_of_validate hvalid
  have hsmall : maxVoterSpiffeIdBytes < 2 ^ 16 := by decide
  have hversion : require ((⟨version, by decide⟩ : Fin (2 ^ 16)).val = version) = .ok () :=
    require_eq_ok.mpr rfl
  have hreason : Reads (Input.tagged VoterLossReason.ofCode) (Writer.u8 claims.reason.code)
      claims.reason := by
    cases claims.reason <;> exact Input.reads_tagged (by decide) rfl
  exact (Input.reads_u16 ⟨version, by decide⟩).bind <| Reads.guard hversion <|
    (Input.reads_array _).bind <| (Input.reads_array _).bind <| (Input.reads_array _).bind <|
    (Input.reads_slotId _).bind <| (Input.reads_incarnation _).bind <|
    (Input.reads_array _).bind <| (Input.reads_array _).bind <| (Input.reads_u64 _).bind <|
    (Input.reads_string (hcandidate.trans_lt hsmall) hcandidate).bind <|
    (Input.reads_string (hcontroller.trans_lt hsmall) hcontroller).bind <|
    (Input.reads_array _).bind <| hreason.bind <| (Input.reads_array _).bind <|
    (Input.reads_u64 _).bind <| (Input.reads_u64 _).bind <| (Input.reads_u64 _).bind <|
    (Input.reads_u64 _).bind <| (Input.reads_array _).last

theorem decode_bytes (hvalid : claims.validate = .ok ()) :
    decodeLostVoterAttestation claims.bytes = .ok claims := by
  unfold decodeLostVoterAttestation
  rw [fits_eq_ok _ (length_bytes_le hvalid), ok_bind,
    Input.complete_eq_ok (reads_bytes hvalid), ok_bind, hvalid, ok_bind]
  rfl

end LostVoterAttestationV1

/-! ## Tables -/

/-- What the readers need to know of a valid replacement. -/
structure Storable (op : VoterReplacementRecord) : Prop where
  attestation : op.attestation.validate = .ok ()
  predecessor : validateCount op.predecessor.members.length = .ok ()
  successor : validateCount op.successor.members.length = .ok ()
  snapshot : ∀ snapshot ∈ op.evidence.snapshot, snapshot.snapshotId.len ≤ maxVoterSnapshotIdBytes

theorem storable_of_validate (hok : table.validateOperation op = .ok ()) : Storable op := by
  obtain ⟨_, hattestation, hok⟩ := bind_eq_ok hok
  obtain ⟨_, hpredecessor, hok⟩ := bind_eq_ok hok
  obtain ⟨_, hsuccessor, hok⟩ := bind_eq_ok hok
  obtain ⟨_, hevidence, _⟩ := bind_eq_ok hok
  obtain ⟨_, hpredecessor, _⟩ := bind_eq_ok hpredecessor
  obtain ⟨_, hsuccessor, _⟩ := bind_eq_ok hsuccessor
  refine ⟨hattestation, hpredecessor, hsuccessor, ?_⟩
  intro _ hsnapshot
  obtain ⟨_, _, hevidence⟩ := bind_eq_ok hevidence
  obtain ⟨_, hshort, _⟩ := bind_eq_ok hevidence
  rw [hsnapshot] at hshort
  obtain ⟨_, hshort, _⟩ := bind_eq_ok hshort
  rwa [refuseIf_eq_ok, not_lt] at hshort

/-- What the readers need to know of a valid table. -/
theorem VoterSlotTable.storable (hvalid : table.validate = .ok ()) :
    validateCount table.slots.length = .ok () ∧ ∀ op ∈ table.replacement, Storable op := by
  obtain ⟨_, hcount, hok⟩ := bind_eq_ok hvalid
  iterate 4 obtain ⟨_, _, hok⟩ := bind_eq_ok hok
  refine ⟨hcount, ?_⟩
  intro op hop
  rw [hop] at hok
  exact storable_of_validate hok

def VoterSnapshotEvidence.bytes (snapshot : VoterSnapshotEvidence) : List Byte :=
  logId snapshot.cut ++ (text snapshot.snapshotId ++ snapshot.digest.toList)

def VoterReplacementEvidence.bytes (evidence : VoterReplacementEvidence) : List Byte :=
  logId evidence.prepare ++
    (optional VoterSnapshotEvidence.bytes evidence.snapshot ++
      (optional logId evidence.learner ++
        (optional logId evidence.caughtUp ++
          (optional logId evidence.continuation ++
            (optional logId evidence.fence ++
              (optional logId evidence.joint ++ optional logId evidence.uniform))))))

def VoterReplacementRecord.bytes (op : VoterReplacementRecord) : List Byte :=
  u64 op.expectedRevision.val ++
    ((u16 op.attestation.bytes.length ++ op.attestation.bytes) ++
      (configuration op.predecessor ++ (configuration op.successor ++
        (u8 op.phase.ordinal ++ op.evidence.bytes))))

def VoterSlotTable.bytes (table : VoterSlotTable) : List Byte :=
  voterSlotTableFormat ++ (u16 version ++ (table.clusterInstance.toList ++
    (table.manifestDigest.toList ++ (u64 table.revision.val ++
      (u64 table.configurationEpoch.value ++ (u8 table.slots.length ++
        (table.slots.flatMap slot ++ optional VoterReplacementRecord.bytes table.replacement)))))))

theorem Writer.snapshot_eq {snapshot : Option VoterSnapshotEvidence}
    (hshort : ∀ inner ∈ snapshot, inner.snapshotId.len ≤ maxVoterSnapshotIdBytes) :
    Writer.snapshot snapshot = .ok (Writer.optional VoterSnapshotEvidence.bytes snapshot) := by
  cases snapshot with
  | none => rfl
  | some inner =>
    have hlength : inner.snapshotId.utf8.length < 2 ^ 16 :=
      lt_of_le_of_lt (hshort _ rfl) (by decide)
    simp only [snapshot, sizedBytes_eq_ok hlength]
    rfl

theorem Writer.replacement_eq {replacement : Option VoterReplacementRecord}
    (hstorable : ∀ op ∈ replacement, Storable op) :
    Writer.replacement replacement =
      .ok (Writer.optional VoterReplacementRecord.bytes replacement) := by
  cases replacement with
  | none => rfl
  | some op =>
    obtain ⟨hattestation, _, _, hshort⟩ := hstorable op rfl
    have hlength : op.attestation.bytes.length < 2 ^ 16 :=
      lt_of_le_of_lt (length_bytes_le hattestation) (by decide)
    simp only [Writer.replacement, encode_eq_ok hattestation, ok_bind,
      sizedBytes_eq_ok hlength, Writer.snapshot_eq hshort]
    rfl

/-! ### Sizes -/

theorem length_flatMap_le {values : List α}
    (hwidth : ∀ value ∈ values, (write value).length ≤ width) :
    (values.flatMap write).length ≤ values.length * width := by
  induction values with
  | nil => simp
  | cons _ _ ih =>
    have hfirst := hwidth _ mem_cons_self
    have hrest := ih fun other hother => hwidth _ (mem_cons_of_mem _ hother)
    rw [flatMap_cons, length_append, length_cons, Nat.add_mul]
    omega

namespace Writer

@[simp] theorem length_logId (id : VoterSlotLogId) : (logId id).length = 16 := by
  simp [logId]

@[simp] theorem length_member (value : VoterSlotMember) : (member value).length = 82 := by
  simp [member, identity, binding]

theorem length_optional_le {value : Option α}
    (hwidth : ∀ inner ∈ value, (write inner).length ≤ width) :
    (optional write value).length ≤ 1 + width := by
  cases value with
  | none => simp [optional]
  | some => simpa [optional] using hwidth _ rfl

theorem length_optional_logId_le (id : Option VoterSlotLogId) : (optional logId id).length ≤ 17 :=
  length_optional_le fun _ _ => (length_logId _).le

theorem length_slot_le (value : VoterSlotRecord) : (slot value).length ≤ 181 := by
  have hresult : (optional result value.lastResult).length ≤ 1 + 89 :=
    length_optional_le fun inner _ => by simp [result]
  simp only [slot, identity, binding, length_append, length_u16, length_u64,
    length_u8, List.Vector.toList_length]
  omega

theorem length_configuration_le (hcount : validateCount value.members.length = .ok ()) :
    (configuration value).length ≤ 747 := by
  have hbound := (require_eq_ok.mp hcount).2.1
  unfold maxFixedVoterSlots at hbound
  have hmembers : (value.members.flatMap member).length ≤ value.members.length * 82 :=
    length_flatMap_le fun inner _ => (length_member _).le
  simp only [configuration, length_append, length_u64, length_u8]
  omega

end Writer

theorem VoterReplacementEvidence.length_bytes_le {evidence : VoterReplacementEvidence}
    (hshort : ∀ inner ∈ evidence.snapshot, inner.snapshotId.len ≤ maxVoterSnapshotIdBytes) :
    evidence.bytes.length ≤ 425 := by
  have hsnapshot : (Writer.optional VoterSnapshotEvidence.bytes evidence.snapshot).length ≤
      1 + 306 := by
    refine Writer.length_optional_le fun inner hinner => ?_
    have hlen := hshort _ hinner
    unfold maxVoterSnapshotIdBytes at hlen
    simp only [VoterSnapshotEvidence.bytes, length_append, Writer.length_logId,
      Writer.length_text, List.Vector.toList_length]
    omega
  have hlearner := Writer.length_optional_logId_le evidence.learner
  have hcaughtUp := Writer.length_optional_logId_le evidence.caughtUp
  have hcontinuation := Writer.length_optional_logId_le evidence.continuation
  have hfence := Writer.length_optional_logId_le evidence.fence
  have hjoint := Writer.length_optional_logId_le evidence.joint
  have huniform := Writer.length_optional_logId_le evidence.uniform
  simp only [bytes, length_append, Writer.length_logId]
  omega

theorem Storable.length_bytes_le (hstorable : Storable op) : op.bytes.length ≤ 10122 := by
  have hattestation := LostVoterAttestationV1.length_bytes_le hstorable.attestation
  unfold maxLostVoterAttestationBytes at hattestation
  have hpredecessor := length_configuration_le hstorable.predecessor
  have hsuccessor := length_configuration_le hstorable.successor
  have hevidence := VoterReplacementEvidence.length_bytes_le hstorable.snapshot
  simp only [VoterReplacementRecord.bytes, length_append, length_u64, length_u16, length_u8]
  omega

theorem VoterSlotTable.length_bytes_le (hvalid : table.validate = .ok ()) :
    table.bytes.length ≤ maxVoterSlotTableBytes := by
  obtain ⟨hcount, hstorable⟩ := storable hvalid
  have hbound := (require_eq_ok.mp hcount).2.1
  unfold maxFixedVoterSlots at hbound
  have hslots : (table.slots.flatMap slot).length ≤ table.slots.length * 181 :=
    length_flatMap_le fun slot _ => length_slot_le _
  have hreplacement : (optional VoterReplacementRecord.bytes table.replacement).length ≤
      1 + 10122 :=
    length_optional_le fun op hop => (hstorable op hop).length_bytes_le
  simp only [bytes, length_append, List.Vector.toList_length, length_u64,
    length_u16, length_u8, voterSlotTableFormat, length_cons, length_nil,
    maxVoterSlotTableBytes]
  omega

/-! ### Reading -/

namespace Input

theorem reads_result (value : VoterReplacementResult) :
    Reads result (Writer.result value) value := by
  have hkind : Reads (tagged VoterReplacementResultKind.ofCode) (Writer.u8 value.kind.code)
      value.kind := by
    cases value.kind <;> exact reads_tagged (by decide) rfl
  exact (reads_array _).bind <| (reads_array _).bind <| (reads_incarnation _).bind <|
    (reads_u64 _).bind <| (reads_epoch _).bind <| hkind.bind (reads_logId _).last

theorem reads_slot (value : VoterSlotRecord) : Reads slot (Writer.slot value) value := by
  have hphase : Reads (tagged VoterSlotPhase.ofOrdinal) (Writer.u8 value.phase.ordinal)
      value.phase := by
    cases value.phase <;> exact reads_tagged (by decide) rfl
  exact (reads_identity _).bind <| (reads_u64 _).bind <| (reads_binding _).bind <|
    hphase.bind (reads_optional fun inner _ => reads_result _).last

theorem reads_snapshot {value : VoterSnapshotEvidence}
    (hshort : value.snapshotId.len ≤ maxVoterSnapshotIdBytes) : Reads snapshot value.bytes value :=
  (reads_logId _).bind <|
    (reads_string (lt_of_le_of_lt hshort (by decide)) hshort).bind (reads_array _).last

theorem reads_evidence {value : VoterReplacementEvidence}
    (hshort : ∀ inner ∈ value.snapshot, inner.snapshotId.len ≤ maxVoterSnapshotIdBytes) :
    Reads evidence value.bytes value := by
  have hcut : ∀ cut : Option VoterSlotLogId,
      Reads (optional logId) (Writer.optional Writer.logId cut) cut :=
    fun cut => reads_optional fun inner _ => reads_logId _
  exact (reads_logId _).bind <|
    (reads_optional fun inner hinner => reads_snapshot (hshort _ hinner)).bind <|
    (hcut _).bind <| (hcut _).bind <| (hcut _).bind <| (hcut _).bind <| (hcut _).bind (hcut _).last

theorem reads_replacement {value : VoterReplacementRecord}
    (hstorable : Storable value) : Reads replacement value.bytes value := by
  have hlength := length_bytes_le hstorable.attestation
  have hphase : Reads (tagged VoterReplacementPhase.ofOrdinal) (Writer.u8 value.phase.ordinal)
      value.phase := by
    cases value.phase <;> exact reads_tagged (by decide) rfl
  exact (reads_u64 _).bind <|
    (reads_sizedBytes (lt_of_le_of_lt hlength (by decide)) hlength).bind <|
    Reads.guard (decode_bytes hstorable.attestation) <|
    (reads_configuration hstorable.predecessor).bind <|
    (reads_configuration hstorable.successor).bind <|
    hphase.bind (reads_evidence hstorable.snapshot).last

theorem reads_table {value : VoterSlotTable} (hvalid : value.validate = .ok ()) :
    Reads Input.table value.bytes value := by
  obtain ⟨hcount, hstorable⟩ := VoterSlotTable.storable hvalid
  have hmagic : Reads (Reader.take VoterSlotError.invalidRecord 4) voterSlotTableFormat
      voterSlotTableFormat := Reads.take rfl
  have hformat : require (voterSlotTableFormat = voterSlotTableFormat) = .ok () :=
    require_eq_ok.mpr rfl
  have hslots : Reads (Reader.repeated slot value.slots.length)
      (value.slots.flatMap Writer.slot) value.slots := Reads.repeated fun slot _ => reads_slot _
  have hreplacement : Reads (optional replacement)
      (Writer.optional VoterReplacementRecord.bytes value.replacement) value.replacement :=
    reads_optional fun op hop => reads_replacement (hstorable op hop)
  have hversion : refuseIf ((⟨version, by decide⟩ : Fin (2 ^ 16)).val ≠ version)
      VoterSlotError.freshInstallationRequired = .ok () :=
    refuseIf_eq_ok.mpr (not_not.mpr rfl)
  exact hmagic.bind <| (reads_u16 ⟨version, by decide⟩).bind <|
    Reads.guard hformat <| Reads.guard hversion <| (reads_array _).bind <|
    (reads_array _).bind <| (reads_u64 _).bind <| (reads_epoch _).bind <|
    (reads_count hcount).bind <| hslots.bind hreplacement.last

end Input

namespace VoterSlotTable

/-- A valid table is written field by field. -/
theorem encode_eq_ok (hvalid : table.validate = .ok ()) :
    encodeVoterSlotTable table = .ok table.bytes := by
  have hreplacement := Writer.replacement_eq (storable hvalid).2
  unfold encodeVoterSlotTable
  rw [hvalid, ok_bind, hreplacement, ok_bind]
  change (do
    refuseIf (maxVoterSlotTableBytes < table.bytes.length) VoterSlotError.tooLarge
    return table.bytes) = _
  rw [fits_eq_ok _ (length_bytes_le hvalid), ok_bind]
  rfl

theorem decode_bytes (hvalid : table.validate = .ok ()) :
    decodeVoterSlotTable table.bytes = .ok table := by
  unfold decodeVoterSlotTable
  rw [fits_eq_ok _ (length_bytes_le hvalid), ok_bind,
    Input.complete_eq_ok (Input.reads_table hvalid), ok_bind, hvalid, ok_bind]
  rfl

end VoterSlotTable

/-! ## Durable states -/

/-- The serialized form of an intent with a valid attestation. -/
def VoterSlotIntent.wire (intent : VoterSlotIntent) : IntentWire :=
  ⟨intent.logId, intent.request.expectedRevision, intent.request.expectedConfiguration,
    intent.request.candidate, intent.request.attestation.bytes⟩

section Intents

variable {intent : Option VoterSlotIntent}
  (hvalid : ∀ inner ∈ intent, inner.request.attestation.validate = .ok ())

include hvalid

theorem serialize_intent :
    intent.mapM VoterSlotIntent.serialize = .ok (intent.map VoterSlotIntent.wire) := by
  cases intent with
  | none => rfl
  | some inner =>
    simp only [Option.mapM_some, VoterSlotIntent.serialize, encode_eq_ok (hvalid _ rfl)]
    rfl

theorem deserialize_intent :
    (intent.map VoterSlotIntent.wire).mapM VoterSlotIntent.deserialize = .ok intent := by
  cases intent with
  | none => rfl
  | some inner =>
    simp only [Option.map_some, Option.mapM_some, VoterSlotIntent.deserialize,
      VoterSlotIntent.wire, decode_bytes (hvalid _ rfl)]
    rfl

end Intents

namespace VoterSlotDurableState

variable {postcard : Postcard} {sha256 : Sha256} {state : VoterSlotDurableState}

theorem attestation_of_validateIntent (hintent : state.validateIntent sha256 = .ok ()) :
    ∀ inner ∈ state.intent, inner.request.attestation.validate = .ok () := by
  intro inner hinner
  unfold validateIntent at hintent
  rw [hinner] at hintent
  obtain ⟨_, hrequest, _⟩ := bind_eq_ok hintent
  obtain ⟨_, hattestation, _⟩ := bind_eq_ok (mapError_eq_ok.mp hrequest)
  exact mapError_eq_ok.mp hattestation

/-- The stored form of a valid state. -/
def wire (state : VoterSlotDurableState) : Wire :=
  ⟨state.table.bytes, state.intent.map VoterSlotIntent.wire⟩

theorem size_wire_le (hvalid : state.table.validate = .ok ())
    (hattestations : ∀ inner ∈ state.intent, inner.request.attestation.validate = .ok ()) :
    state.wire.size ≤ maxVoterSlotTableBytes + maxLostVoterAttestationBytes := by
  have htable := VoterSlotTable.length_bytes_le hvalid
  unfold Wire.size wire
  cases hintent : state.intent with
  | none => exact htable.trans (Nat.le_add_right _ _)
  | some inner => exact Nat.add_le_add htable (length_bytes_le (hattestations _ hintent))

/-- The header is found where it was written. -/
theorem header_accepted (rest : List Byte) :
    require (stateHeader.length ≤ (stateHeader ++ rest).length ∧
        (stateHeader ++ rest).take 4 = stateHeader.take 4) = .ok () ∧
      refuseIf ((stateHeader ++ rest).take stateHeader.length ≠ stateHeader)
        VoterSlotError.freshInstallationRequired = .ok () := by
  refine ⟨require_eq_ok.mpr ⟨?_, rfl⟩, refuseIf_eq_ok.mpr (not_not.mpr take_left)⟩
  rw [length_append]
  exact Nat.le_add_right _ _

/-- A state with a valid table and a valid intent is stored, and read back as it
was: the size limits leave room for every valid table and attestation. -/
theorem decode_encode (hlawful : postcard.Lawful) (hvalid : state.table.validate = .ok ())
    (hintent : state.validateIntent sha256 = .ok ()) :
    ∃ bytes, state.encode postcard sha256 = .ok bytes ∧
      decode postcard sha256 bytes = .ok state := by
  have hattestations := attestation_of_validateIntent hintent
  have hsize := size_wire_le hvalid hattestations
  have hsized : state.wire.size < 2 ^ 64 := lt_of_le_of_lt hsize (by decide)
  have hlength := (hlawful.length_toBytes_le _ hsized).trans (Nat.add_le_add_right hsize _)
  have hpayload : (postcard.toBytes state.wire).length ≤ consensusMaxRpcPayloadBytes :=
    hlength.trans (by decide)
  have hstate : (postcard.toBytes state.wire).length + stateHeader.length ≤ maxStateBytes :=
    (Nat.add_le_add_right hlength _).trans (by decide)
  refine ⟨stateHeader ++ postcard.toBytes state.wire, ?_, ?_⟩
  · have hencoded : postcard.encodeBounded state.wire = .ok (postcard.toBytes state.wire) := by
      unfold Postcard.encodeBounded
      rw [fits_eq_ok _ hpayload]
      rfl
    unfold encode
    rw [VoterSlotTable.encode_eq_ok hvalid, ok_bind, hintent, ok_bind,
      serialize_intent hattestations]
    simp only [Except.mapError, ok_bind]
    rw [show Wire.mk _ _ = state.wire from rfl, hencoded, ok_bind, fits_eq_ok _ hstate]
    rfl
  · have hdecoded : postcard.decodeBounded (postcard.toBytes state.wire) = .ok state.wire := by
      unfold Postcard.decodeBounded
      rw [fits_eq_ok _ hpayload, hlawful.takeFromBytes_toBytes _ hsized]
      rfl
    have hwhole : (stateHeader ++ postcard.toBytes state.wire).length ≤ maxStateBytes := by
      rw [length_append, Nat.add_comm]
      exact hstate
    obtain ⟨hheader, hversion⟩ := header_accepted (postcard.toBytes state.wire)
    unfold decode
    rw [fits_eq_ok _ hwhole, ok_bind, hheader, ok_bind, hversion, ok_bind, drop_left,
      hdecoded, ok_bind, show state.wire.intent = state.intent.map _ from rfl,
      deserialize_intent hattestations]
    simp only [Except.mapError, ok_bind]
    rw [show state.wire.table = state.table.bytes from rfl,
      VoterSlotTable.decode_bytes hvalid, ok_bind, hintent]
    rfl

end VoterSlotDurableState

end PacketCore.VoterSlots
