import PacketCore.Library.Word

/-!
# Classifier metadata and parsed packets

The active classifier's identity and the parsed inner packet, as the packet
filter holds them: byte arrays in network order, read back in machine words.
-/

namespace PacketCore.Gtpu

/-- The active selector of a classifier. -/
structure TftClassifierMeta where
  abiVersion : Byte
  family : Byte
  activeBank : Byte
  flags : Byte
  owner : List.Vector Byte 16
  ownerGeneration : List.Vector Byte 8
  snapshotGeneration : List.Vector Byte 8
  filterCount : List.Vector Byte 2
  classifierFingerprint : List.Vector Byte 32
  removalProgress : List.Vector Byte 2

namespace TftClassifierMeta

/-- The identity in nine words. -/
def fragmentIdentityWord (classifier : TftClassifierMeta) (index : ℕ) : ℕ :=
  match index with
  | 0 => fromBigEndian
      ([classifier.abiVersion, classifier.family, classifier.activeBank, classifier.flags] ++
      classifier.filterCount.toList ++ classifier.removalProgress.toList)
  | 1 => fromBigEndian (classifier.owner.toList.take 8)
  | 2 => fromBigEndian (classifier.owner.toList.drop 8)
  | 3 => fromBigEndian classifier.ownerGeneration.toList
  | 4 => fromBigEndian classifier.snapshotGeneration.toList
  | 5 | 6 | 7 | 8 =>
    fromBigEndian ((classifier.classifierFingerprint.toList.drop ((index - 5) * 8)).take 8)
  | _ => 0

end TftClassifierMeta

/-- The inner fields that a filter compares; `present` says which of the optional
ones there are. -/
structure TftClassifierIpv4Packet where
  localAddress : List.Vector Byte 4
  remoteAddress : List.Vector Byte 4
  localPort : List.Vector Byte 2
  remotePort : List.Vector Byte 2
  espSpi : List.Vector Byte 4
  udpLengthBytes : List.Vector Byte 2
  protocol : Byte
  tos : Byte
  present : Byte
  reserved : Byte

namespace TftClassifierIpv4Packet

/-- The parsed fields in six words. -/
def fragmentPacketWord (packet : TftClassifierIpv4Packet) (index : ℕ) : ℕ :=
  match index with
  | 0 => fromBigEndian packet.localAddress.toList
  | 1 => fromBigEndian packet.remoteAddress.toList
  | 2 => fromBigEndian (packet.localPort.toList ++ packet.remotePort.toList)
  | 3 => fromBigEndian packet.espSpi.toList
  | 4 => fromBigEndian (packet.udpLengthBytes.toList ++ [packet.protocol, packet.tos])
  | 5 => fromBigEndian [packet.present, packet.reserved, 0, 0]
  | _ => 0

/-- The declared end of a UDP datagram. -/
def udpLength (packet : TftClassifierIpv4Packet) : Option ℕ :=
  if packet.protocol = 17 then some (fromBigEndian packet.udpLengthBytes.toList) else none

theorem fragmentPacketWord_transport (packet : TftClassifierIpv4Packet) :
    packet.fragmentPacketWord 4 / 2 ^ 16 = fromBigEndian packet.udpLengthBytes.toList ∧
      packet.fragmentPacketWord 4 / 2 ^ 8 % 2 ^ 8 = packet.protocol.val := by
  have hword : packet.fragmentPacketWord 4 =
      (fromBigEndian packet.udpLengthBytes.toList * 256 + packet.protocol.val) * 256 +
        packet.tos.val := by
    simp only [fragmentPacketWord, fromBigEndian, List.foldl_append,
      List.foldl_cons, List.foldl_nil]
  omega

end TftClassifierIpv4Packet

end PacketCore.Gtpu
