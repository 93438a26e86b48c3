import ALCC.Theory.Varint
import ALCC.Verify.SproutEnd

/-! The message `DeliveryForecast` as it stands on the wire: two numbers of 64 bits, and the counts
packed together. It is a lawful encoding of the forecasts that are sent. -/

namespace ALCC.Sprout.Protobuf

/-- The packed counts. -/
def packed (counts : List UInt32) : Bytes :=
  (counts.map UInt32.toNat).flatMap (Varint.encode 5)

def serialize (f : DeliveryForecast) : Bytes :=
  8 :: (Varint.encode 10 f.received_or_lost_count.toNat ++ 16 ::
    (Varint.encode 10 f.time.toNat ++ 26 ::
      (Varint.encode 5 (packed f.counts).length ++ packed f.counts)))

/-- The number of a field, and what follows it. -/
def field (tag : UInt8) : Bytes → Option (Nat × Bytes)
  | [] => none
  | b :: bs => if b = tag then Varint.decode bs else none

/-- With the fields in their order. -/
def parse (bytes : Bytes) : Option DeliveryForecast :=
  (field 8 bytes).bind fun (received_or_lost_count, bytes) =>
    (field 16 bytes).bind fun (time, bytes) =>
      (field 26 bytes).bind fun (length, bytes) =>
        (Varint.decodeAll length (bytes.take length)).map fun counts =>
          ⟨.ofNat received_or_lost_count, .ofNat time, counts.map .ofNat⟩

def wire : Protobuf := ⟨serialize, parse⟩

theorem field_eq {tag : UInt8} {width n : Nat} (h : n < 128 ^ (width + 1)) (rest : Bytes) :
    field tag (tag :: (Varint.encode (width + 1) n ++ rest)) = some (n, rest) := by
  rw [field, if_pos rfl, Varint.decode_encode h]

theorem length_flatMap_le {ns : List Nat} (h : ∀ n ∈ ns, n ≤ 234) :
    (ns.flatMap (Varint.encode 5)).length ≤ 2 * ns.length ∧
      ns.length ≤ (ns.flatMap (Varint.encode 5)).length := by
  induction ns with
  | nil => exact ⟨Nat.le_refl 0, Nat.le_refl 0⟩
  | cons n ns ih =>
    obtain ⟨hn, hns⟩ := List.forall_mem_cons.mp h
    obtain ⟨hle, hge⟩ := ih hns
    have htwo : (Varint.encode 5 n).length ≤ 2 :=
      Varint.length_encode_of_lt (k := 1) (hn.trans_lt (by decide))
    have hpos : 0 < (Varint.encode 5 n).length := List.length_pos_of_ne_nil Varint.encode_ne_nil
    rw [List.flatMap_cons, List.length_append, List.length_cons]
    omega

theorem length_packed {f : DeliveryForecast} (h : f.Valid) :
    (packed f.counts).length ≤ 16 ∧ 8 ≤ (packed f.counts).length := by
  have hbound : ∀ n ∈ f.counts.map UInt32.toNat, n ≤ 234 := by
    intro n hn
    obtain ⟨count, hcount, rfl⟩ := List.mem_map.mp hn
    exact h.bound count hcount
  have hlen := length_flatMap_le hbound
  rwa [List.length_map, h.length] at hlen

theorem wire_lawful : wire.Lawful where
  parse {f} h := by
    obtain ⟨hle, hge⟩ := length_packed h
    have hsmall : ∀ n ∈ f.counts.map UInt32.toNat, n < 128 ^ (4 + 1) := by
      intro n hn
      obtain ⟨count, hcount, rfl⟩ := List.mem_map.mp hn
      exact (h.bound count hcount).trans_lt (by decide)
    have hcounts : Varint.decodeAll (packed f.counts).length (packed f.counts) =
        some (f.counts.map UInt32.toNat) := by
      refine Varint.decodeAll_flatMap hsmall ?_
      rw [List.length_map, h.length]
      exact hge
    have hcount64 : f.received_or_lost_count.toNat < 128 ^ (9 + 1) :=
      f.received_or_lost_count.toNat_lt.trans (by decide)
    have htime64 : f.time.toNat < 128 ^ (9 + 1) := f.time.toNat_lt.trans (by decide)
    have hlength : (packed f.counts).length < 128 ^ (4 + 1) := hle.trans_lt (by decide)
    change parse (serialize f) = some f
    rw [serialize, parse, field_eq hcount64, Option.bind_some]
    simp only
    rw [field_eq htime64, Option.bind_some]
    simp only
    rw [field_eq hlength, Option.bind_some]
    simp only
    rw [List.take_length, hcounts, Option.map_some, List.map_map]
    have hid : (UInt32.ofNat ∘ UInt32.toNat) = id := funext fun count => UInt32.ofNat_toNat
    rw [hid, List.map_id, UInt64.ofNat_toNat, UInt64.ofNat_toNat]
  pos _ := Nat.succ_pos _
  le {f} h := by
    obtain ⟨hle, -⟩ := length_packed h
    have hcount := Varint.length_encode_le 10 f.received_or_lost_count.toNat
    have htime := Varint.length_encode_le 10 f.time.toNat
    have hlength := Varint.length_encode_le 5 (packed f.counts).length
    change (serialize f).length ≤ 64
    simp only [serialize, List.length_cons, List.length_append]
    omega

end ALCC.Sprout.Protobuf
