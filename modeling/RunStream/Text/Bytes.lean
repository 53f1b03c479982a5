import RunStream.Text.Width

set_option autoImplicit false

namespace RunStream.Text

def toBytes (text : String) : List UInt8 :=
  text.toUTF8.toList

theorem toList_loop (bytes : ByteArray) (start : Nat) (taken : List UInt8) :
    ByteArray.toList.loop bytes start taken = taken.reverse ++ bytes.data.toList.drop start := by
  induction start, taken using ByteArray.toList.loop.induct bytes with
  | case1 start taken inside ih =>
      have bound : start < bytes.data.toList.length := by simpa using inside
      have next : bytes.get! start = bytes.data.toList[start] := getElem!_pos bytes.data start bound
      rw [ByteArray.toList.loop, if_pos inside, ih, List.drop_eq_getElem_cons bound, next]
      simp
  | case2 start taken outside =>
      have bound : bytes.data.toList.length ≤ start := by simpa using outside
      rw [ByteArray.toList.loop, if_neg outside, List.drop_eq_nil_of_le bound, List.append_nil]

theorem toBytes_eq (text : String) : toBytes text = text.toUTF8.data.toList :=
  toList_loop text.toUTF8 0 []

theorem toBytes_empty : toBytes "" = [] :=
  toBytes_eq ""

theorem toBytes_append (left right : String) :
    toBytes (left ++ right) = toBytes left ++ toBytes right := by
  have joined : (left ++ right).toUTF8 = left.toUTF8 ++ right.toUTF8 := String.toByteArray_append
  simp only [toBytes_eq, joined, ByteArray.data_append, Array.toList_append]

theorem toBytes_ofList (text : List Char) :
    toBytes (String.ofList text) = text.flatMap String.utf8EncodeChar := by
  rw [toBytes_eq]
  exact List.toList_data_toByteArray

theorem length_flatMap_encode (text : List Char) :
    (text.flatMap String.utf8EncodeChar).length = width text := by
  induction text with
  | nil => rfl
  | cons c rest ih => simp [ih]

-- All bytes of a character that has several are 128 at least.
theorem toNat_of_low_byte {c : Char} {byte : UInt8} (member : byte ∈ String.utf8EncodeChar c)
    (low : byte.toNat < 128) : c.toNat = byte.toNat := by
  have code : c.val.toNat = c.toNat := rfl
  simp only [String.utf8EncodeChar, code] at member
  split at member
  · next single =>
      rw [List.mem_singleton.mp member, UInt8.toNat_ofNat']
      omega
  all_goals
    exfalso
    repeat' split at member
    all_goals
      simp only [List.mem_cons, List.not_mem_nil, or_false] at member
      rcases member with rfl | rfl | rfl | rfl <;> simp only [UInt8.toNat_ofNat'] at low <;> omega

def ofBytes? (bytes : List UInt8) : Option String :=
  String.fromUTF8? (ByteArray.mk bytes.toArray)

theorem ofBytes?_toBytes (text : String) : ofBytes? (toBytes text) = some text := by
  have same : ByteArray.mk (toBytes text).toArray = text.toByteArray := by
    rw [toBytes_eq]
    rfl
  rw [ofBytes?, same, String.fromUTF8?, dif_pos text.isValidUTF8]
  rfl

/-- There is no such text if either offset lies inside a character. -/
def slice? (text : String) (start stop : Nat) : Option String :=
  ofBytes? (((toBytes text).drop start).take (stop - start))

theorem slice?_middle (before middle after : List Char) :
    slice? (String.ofList (before ++ middle ++ after)) (width before)
      (width before + width middle) = some (String.ofList middle) := by
  have cut : ((toBytes (String.ofList (before ++ middle ++ after))).drop (width before)).take
      (width middle) = toBytes (String.ofList middle) := by
    simp only [toBytes_ofList, List.flatMap_append, List.append_assoc]
    rw [List.drop_left' (length_flatMap_encode before),
      List.take_left' (length_flatMap_encode middle)]
  rw [slice?, Nat.add_sub_cancel_left, cut, ofBytes?_toBytes]

end RunStream.Text
