import Netlist.Proofs.MessagePack.Scalar

/-!
# Reading lists and records back

A value is read back if it fits: its texts have fewer than 2³² bytes and its lists fewer than
2³² items, so that their heads hold their lengths (`Value.Fits`).  A value with fewer than 2³²
bytes always fits.

A list is read back if each of its items is.  A record is written as a map that names its
fields in the order in which the reader lists them; `Fills` says that reading the values one
after the other builds a record, and `reads_record` that the map is then read as that
record.
-/

namespace Netlist.MessagePack

variable {α β : Type}

/-! ## Values that fit -/

namespace Value

theorem itemBytes_eq (items : List Value) : itemBytes items = items.flatMap bytes := by
  induction items with
  | nil => rfl
  | cons v rest ih => rw [itemBytes, ih, List.flatMap_cons]

theorem memberBytes_eq (members : List (String × Value)) :
    memberBytes members = members.flatMap fun m => string m.1 ++ m.2.bytes := by
  induction members with
  | nil => rfl
  | cons m rest ih => rw [memberBytes, ih, List.flatMap_cons, List.append_assoc]

theorem bytes_list (items : List Value) :
    (list items).bytes = listHead items.length ++ items.flatMap bytes := by
  rw [bytes, itemBytes_eq]

theorem bytes_map (members : List (String × Value)) : (map members).bytes =
    mapHead members.length ++ members.flatMap fun m => string m.1 ++ m.2.bytes := by
  rw [bytes, memberBytes_eq]

/-- The texts and the lists of the value are short enough for their heads. -/
inductive Fits : Value → Prop
  | nil : Fits .nil
  | bool (b : Bool) : Fits (.bool b)
  | uint8 (n : UInt8) : Fits (.uint8 n)
  | uint16 (n : UInt16) : Fits (.uint16 n)
  | uint32 (n : UInt32) : Fits (.uint32 n)
  | int (n : Int) : Fits (.int n)
  | text {content : Bytes} (hlength : content.length < 2 ^ 32) : Fits (.text content)
  | binary {content : Bytes} (hlength : content.length < 2 ^ 32) : Fits (.binary content)
  | list {items : List Value} (hlength : items.length < 2 ^ 32) (hitems : ∀ v ∈ items, Fits v) :
      Fits (.list items)
  | map {members : List (String × Value)} (hlength : members.length < 2 ^ 32)
      (hnames : ∀ m ∈ members, (Bytes.ofString m.1).length < 2 ^ 32)
      (hvalues : ∀ m ∈ members, Fits m.2) : Fits (.map members)

theorem length_le_text (content : Bytes) :
    content.length < (MessagePack.text content).length := by
  unfold MessagePack.text
  dsimp only
  split_ifs <;> simp

theorem length_le_binary (content : Bytes) :
    content.length < (MessagePack.binary content).length := by
  unfold MessagePack.binary
  dsimp only
  split_ifs <;> simp

/-- Every value has a byte. -/
theorem length_bytes_pos (v : Value) : 0 < v.bytes.length := by
  cases v with
  | nil => simp [bytes, MessagePack.nil]
  | bool b => cases b <;> simp [bytes, MessagePack.bool]
  | uint8 n => simp [bytes, MessagePack.uint8]
  | uint16 n => simp [bytes, MessagePack.uint16]
  | uint32 n => simp [bytes, MessagePack.uint32]
  | int n =>
      rw [bytes, MessagePack.int]
      unfold MessagePack.nat MessagePack.uint8 MessagePack.uint16 MessagePack.uint32
      dsimp only
      split_ifs <;> simp
  | text content =>
      rw [bytes]
      exact Nat.zero_lt_of_lt (length_le_text content)
  | binary content =>
      rw [bytes]
      exact Nat.zero_lt_of_lt (length_le_binary content)
  | list items =>
      rw [bytes, listHead]
      split_ifs <;> simp
  | map members =>
      rw [bytes, mapHead]
      split_ifs <;> simp

theorem length_le_flatMap {f : β → Bytes} {items : List β} (h : ∀ b ∈ items, 0 < (f b).length) :
    items.length ≤ (items.flatMap f).length := by
  induction items with
  | nil => exact Nat.zero_le _
  | cons b items ih =>
      have hb := h b (List.mem_cons_self ..)
      have hrest := ih fun c hc => h c (List.mem_cons_of_mem _ hc)
      rw [List.flatMap_cons, List.length_append, List.length_cons]
      omega

theorem length_le_flatMap_of_mem {f : β → Bytes} {items : List β} {b : β} (h : b ∈ items) :
    (f b).length ≤ (items.flatMap f).length := by
  induction items with
  | nil => cases h
  | cons c items ih =>
      rw [List.flatMap_cons, List.length_append]
      rcases List.mem_cons.mp h with rfl | h
      · omega
      · have hrest := ih h
        omega

/-- A value with fewer than 2³² bytes fits: its parts have no more bytes than it has. -/
theorem fits_of_length : ∀ v : Value, v.bytes.length < 2 ^ 32 → v.Fits
  | nil, _ => .nil
  | bool b, _ => .bool b
  | uint8 n, _ => .uint8 n
  | uint16 n, _ => .uint16 n
  | uint32 n, _ => .uint32 n
  | int n, _ => .int n
  | text content, h => by
      rw [bytes] at h
      exact .text (Nat.lt_trans (length_le_text content) h)
  | binary content, h => by
      rw [bytes] at h
      exact .binary (Nat.lt_trans (length_le_binary content) h)
  | list items, h => by
      rw [bytes_list, List.length_append] at h
      have hcount := length_le_flatMap fun v (_ : v ∈ items) => v.length_bytes_pos
      refine .list (by omega) fun v hv => fits_of_length v ?_
      have hv' := length_le_flatMap_of_mem (f := bytes) hv
      omega
  | map members, h => by
      rw [bytes_map, List.length_append] at h
      have hmember (m : String × Value) (hm : m ∈ members) :
          (string m.1 ++ m.2.bytes).length < 2 ^ 32 := by
        have hle := length_le_flatMap_of_mem (f := fun m => string m.1 ++ m.2.bytes) hm
        omega
      have hname (m : String × Value) : (Bytes.ofString m.1).length < (string m.1).length :=
        length_le_text (Bytes.ofString m.1)
      have hcount : members.length ≤ (members.flatMap fun m => string m.1 ++ m.2.bytes).length := by
        refine length_le_flatMap fun m _ => ?_
        have := m.2.length_bytes_pos
        rw [List.length_append]
        omega
      refine .map (by omega) (fun m hm => ?_) fun m hm => fits_of_length m.2 ?_
      · have hlt := hmember m hm
        have := hname m
        rw [List.length_append] at hlt
        omega
      · have hlt := hmember m hm
        rw [List.length_append] at hlt
        omega
termination_by v => sizeOf v
decreasing_by
  · have := List.sizeOf_lt_of_mem hv
    simp only [list.sizeOf_spec]
    omega
  · have hlt := List.sizeOf_lt_of_mem hm
    obtain ⟨name, v⟩ := m
    simp only [map.sizeOf_spec, Prod.mk.sizeOf_spec] at hlt ⊢
    omega

end Value

/-! ## Reading values -/

/-- The reader reads the value back, if it fits. -/
def Reads (r : Reader α) (v : Value) (a : α) : Prop := v.Fits → Takes r v.bytes a

theorem Reads.map {x : Reader α} {v : Value} {a : α} (hx : Reads x v a) (f : α → β) :
    Reads (do return f (← x)) v (f a) := fun hfits => (hx hfits).map f

theorem Reads.map_eq {x : Reader α} {v : Value} {a : α} {b : β} (hx : Reads x v a) {f : α → β}
    (hf : f a = b) : Reads (do return f (← x)) v b :=
  hf ▸ hx.map f

theorem reads_nil {r : Reader α} {a : α} (h : Takes r nil a) : Reads r .nil a := fun _ => by
  rw [Value.bytes]
  exact h

theorem reads_bool (b : Bool) : Reads Reader.bool (.bool b) b := fun _ => by
  rw [Value.bytes]
  exact takes_bool b

theorem reads_uint8 (n : UInt8) : Reads (Reader.uint 8) (.uint8 n) n.toNat := fun _ => by
  rw [Value.bytes]
  exact takes_uint8 n

theorem reads_uint16 (n : UInt16) : Reads (Reader.uint 16) (.uint16 n) n.toNat := fun _ => by
  rw [Value.bytes]
  exact takes_uint16 n

theorem reads_uint32 (n : UInt32) : Reads (Reader.uint 32) (.uint32 n) n.toNat := fun _ => by
  rw [Value.bytes]
  exact takes_uint32 n

theorem reads_int {n : Int} (hlow : -2 ^ 63 ≤ n) (hhigh : n < 2 ^ 63) :
    Reads Reader.int (.int n) n := fun _ => by
  rw [Value.bytes]
  exact takes_int hlow hhigh

theorem reads_text (content : Bytes) : Reads Reader.binary (.text content) content := by
  rintro ⟨⟩
  rename_i hlength
  rw [Value.bytes]
  exact takes_text hlength

theorem reads_binary (content : Bytes) : Reads Reader.binary (.binary content) content := by
  rintro ⟨⟩
  rename_i hlength
  rw [Value.bytes]
  exact takes_binary hlength

/-! ## Lists -/

theorem listLength_of_mem {c : UInt8} (h : 0x90 ≤ c ∧ c ≤ 0x9F) :
    Reader.listLength c = pure (some (c.toNat - 0x90)) := by
  simp only [Reader.listLength, beq_nil_eq_false h.2 (by decide), Bool.false_eq_true, if_false, h.1,
    h.2, decide_true, Bool.and_self, if_true]

/-- The bytes in front of a list: a code and what the code announces. -/
theorem exists_listHead_eq {n : Nat} (h : n < 2 ^ 32) :
    ∃ c bytes, listHead n = c :: bytes ∧ Takes (Reader.listLength c) bytes (some n) := by
  unfold listHead
  split
  · refine ⟨_, _, rfl, ?_⟩
    rw [listLength_of_mem (ofNat_mem_codes 0x90 0x9F (by omega) (by decide)),
      UInt8.toNat_ofNat_of_lt' (show _ < 256 by omega), Nat.add_sub_cancel_left]
    exact takes_pure _
  split
  · exact ⟨_, _, rfl, (takes_number (by omega)).map some⟩
  · exact ⟨_, _, rfl, (takes_number (by omega)).map some⟩

/-- Items are read one after the other. -/
theorem takes_items {item : Reader α} {f : β → Value} {g : β → α} : ∀ {items : List β},
    (∀ b ∈ items, Takes item (f b).bytes (g b)) →
    Takes (Reader.items item items.length) (items.flatMap fun b => (f b).bytes) (items.map g)
  | [], _ => takes_pure []
  | b :: items, h => by
      have ih := takes_items fun c hc => h c (List.mem_cons_of_mem _ hc)
      have hrest := ih.map fun rest => g b :: rest
      exact (h b (List.mem_cons_self ..)).bind hrest

section List

variable {item : Reader α} {f : β → Value} {g : β → α}

/-- What comes after the head of a list is read as if the number of its items were known. -/
theorem reads_list_of {γ : Type} (after : List α → γ) {items : List β}
    (h : ∀ b ∈ items, Reads item (f b) (g b)) {k : Option Nat → Reader γ} {c : γ}
    (hk : k (some items.length) = do return after (← Reader.items item items.length))
    (hafter : after (items.map g) = c) :
    Reads (do k (← Reader.listLength (← Reader.code))) (.list (items.map f)) c := by
  intro hfits
  cases hfits with
  | list hlength hitems =>
      have htakes : ∀ b ∈ items, Takes item (f b).bytes (g b) := fun b hb =>
        h b hb (hitems _ (List.mem_map_of_mem hb))
      rw [List.length_map] at hlength
      obtain ⟨code, bytes, heq, hhead⟩ := exists_listHead_eq hlength
      have hrest := (takes_items htakes).map after
      rw [← hk, hafter] at hrest
      rw [Value.bytes_list, List.length_map, heq, List.flatMap_map]
      exact Takes.code (f := fun c => Reader.listLength c >>= k) (hhead.bind hrest)

theorem reads_list? {f : α → Value} {items : Option (List α)}
    (h : ∀ l ∈ items, ∀ a ∈ l, Reads item (f a) a) :
    Reads (Reader.list item) (.ofList? f items) items := by
  cases items with
  | none => exact reads_nil fun _ => rfl
  | some l =>
      unfold Reader.list
      refine reads_list_of some (g := id) (h l rfl) rfl ?_
      rw [List.map_id]

end List

/-! ## Lists over earlier ones -/

theorem itemsOver_nil (zero : α) (item : α → Reader α) : ∀ count : Nat,
    Reader.itemsOver zero item count [] = Reader.items (item zero) count
  | 0 => rfl
  | count + 1 => by
      rw [Reader.itemsOver, Reader.items, List.tail_nil, itemsOver_nil zero item count]
      rfl

/-- A list that is read over nothing has no spare items. -/
theorem reads_slots {zero : α} {item : α → Reader α} {f : β → Value} {g : β → α}
    {l : Option (List β)} (h : ∀ items ∈ l, ∀ b ∈ items, Reads (item zero) (f b) (g b)) :
    Reads (Reader.slotsOver zero item {}) (.ofList? f l) ⟨l.map (·.map g), []⟩ := by
  cases l with
  | none => exact reads_nil fun _ => rfl
  | some items =>
      have hheld : ({} : Slots α).held = [] := rfl
      unfold Reader.slotsOver
      refine reads_list_of (fun l => ⟨some l, []⟩) (h items rfl) ?_ rfl
      simp only [hheld, List.drop_nil, itemsOver_nil]

theorem reads_slots_self {zero : α} {item : α → Reader α} {f : α → Value} {l : Option (List α)}
    (h : ∀ items ∈ l, ∀ a ∈ items, Reads (item zero) (f a) a) :
    Reads (Reader.slotsOver zero item {}) (.ofList? f l) ⟨l, []⟩ := by
  have hread := reads_slots (g := id) h
  rwa [List.map_id_fun, Option.map_id_fun] at hread

theorem reads_listOver {item : Reader α} {f : α → Value} {items : Option (List α)}
    (h : ∀ l ∈ items, ∀ a ∈ l, Reads item (f a) a) :
    Reads (Reader.listOver item none) (.ofList? f items) items := by
  have hread := (reads_list? h).map fun l => l.orElse fun _ => none
  cases items with
  | none => exact hread
  | some l => exact hread

/-! ## Values that may be missing -/

/-- The bytes begin with another code than the one for nothing. -/
def StartsValue (bytes : Bytes) : Prop := ∃ c rest, bytes = c :: rest ∧ c ≠ 0xC0

theorem StartsValue.takeNil {bytes : Bytes} (h : StartsValue bytes) (rest : Bytes) :
    Reader.takeNil (bytes ++ rest) = .ok (false, bytes ++ rest) := by
  obtain ⟨c, tail, rfl, hc⟩ := h
  have hpeek : (some c == some (0xC0 : UInt8)) = false := by simpa using hc
  change (if (some c == some (0xC0 : UInt8)) = true then _ else _ : Reader Bool) _ = _
  rw [hpeek]
  rfl

theorem reads_optionOver {zero a : α} {value : α → Reader α} {v : Value}
    (hstart : StartsValue v.bytes) (h : Reads (value zero) v a) :
    Reads (Reader.optionOver zero value none) v (some a) := by
  intro hfits rest
  change (Reader.takeNil (v.bytes ++ rest)).bind _ = _
  rw [hstart.takeNil]
  exact (h hfits).map some rest

theorem reads_wholeOver {zero a : α} {value : Reader α} {v : Value}
    (hstart : StartsValue v.bytes) (h : Reads value v a) :
    Reads (Reader.wholeOver zero value none) v (some a) := by
  intro hfits rest
  change (Reader.takeNil (v.bytes ++ rest)).bind _ = _
  rw [hstart.takeNil]
  exact (h hfits).map some rest

/-- A value that may be missing is written as nil. -/
theorem reads_option {zero : α} {value : α → Reader α} {f : α → Value} {o : Option α}
    (hstart : ∀ a, StartsValue (f a).bytes) (h : ∀ a ∈ o, Reads (value zero) (f a) a) :
    Reads (Reader.optionOver zero value none) (.ofOption f o) o := by
  cases o with
  | none => exact reads_nil fun _ => rfl
  | some a => exact reads_optionOver (hstart a) (h a rfl)

/-! ## Records -/

theorem mapLength_of_mem {c : UInt8} (h : 0x80 ≤ c ∧ c ≤ 0x8F) :
    Reader.mapLength c = pure (some (c.toNat - 0x80)) := by
  simp only [Reader.mapLength, beq_nil_eq_false h.2 (by decide), Bool.false_eq_true, if_false, h.1,
    h.2, decide_true, Bool.and_self, if_true]

/-- The bytes in front of a map: a code and what the code announces. -/
theorem exists_mapHead_eq (n : Nat) :
    ∃ c bytes, mapHead n = c :: bytes ∧ c ≠ 0xC0 ∧
      (n < 2 ^ 32 → Takes (Reader.mapLength c) bytes (some n)) := by
  unfold mapHead
  split
  · have hcode : 0x80 ≤ UInt8.ofNat (0x80 + n) ∧ UInt8.ofNat (0x80 + n) ≤ 0x8F :=
      ofNat_mem_codes 0x80 0x8F (by omega) (by decide)
    refine ⟨_, _, rfl, ?_, fun _ => ?_⟩
    · exact beq_eq_false_iff_ne.mp (beq_nil_eq_false hcode.2 (by decide))
    · rw [mapLength_of_mem hcode, UInt8.toNat_ofNat_of_lt' (show _ < 256 by omega),
        Nat.add_sub_cancel_left]
      exact takes_pure _
  split
  · exact ⟨_, _, rfl, by decide, fun _ => (takes_number (by omega)).map some⟩
  · exact ⟨_, _, rfl, by decide, fun h => (takes_number (by omega)).map some⟩

theorem startsValue_map (members : List (String × Value)) :
    StartsValue (Value.map members).bytes := by
  obtain ⟨c, bytes, heq, hc, _⟩ := exists_mapHead_eq members.length
  exact ⟨c, _, by rw [Value.bytes_map, heq, List.cons_append], hc⟩

theorem takes_recordHead {c : UInt8} {bytes : Bytes} {n : Nat}
    (h : Takes (Reader.mapLength c) bytes (some n)) :
    Takes (Reader.recordHead c) bytes (.members n) := by
  intro rest
  have hlength : (Reader.mapLength c).run (bytes ++ rest) = .ok (some n, rest) := h rest
  change Reader.recordHead c (bytes ++ rest) = _
  unfold Reader.recordHead
  rw [hlength]

/-- Reading the values of members one after the other with the readers of the fields takes
one record to another. -/
inductive Fills : List (String × (α → Reader α)) → List (String × Value) → α → α → Prop
  | nil (a : α) : Fills [] [] a a
  | cons {name : String} {field : α → Reader α} {fs : List (String × (α → Reader α))}
      {v : Value} {ms : List (String × Value)} {a a' b : α} (h : Reads (field a) v a')
      (rest : Fills fs ms a' b) : Fills ((name, field) :: fs) ((name, v) :: ms) a b

theorem lookup_append_cons {β : Type} {name : String} {b : β} {done fs : List (String × β)}
    (h : name ∉ done.map (·.1)) : (done ++ (name, b) :: fs).lookup name = some b := by
  have hdone : done.lookup name = none := by
    rw [List.lookup_eq_none_iff]
    intro p hp
    simp only [bne_iff_ne]
    rintro rfl
    exact h (List.mem_map_of_mem hp)
  rw [List.lookup_append, hdone, List.lookup_cons, beq_self_eq_true]
  rfl

/-- Members are read in the order of the fields; `done` are the fields before. -/
theorem Fills.takes_members {fs : List (String × (α → Reader α))} {ms : List (String × Value)}
    {a b : α} (h : Fills fs ms a b) : (∀ m ∈ ms, (Bytes.ofString m.1).length < 2 ^ 32) →
      (∀ m ∈ ms, m.2.Fits) → ∀ done : List (String × (α → Reader α)),
      ((done ++ fs).map (·.1)).Nodup →
      Takes (Reader.members (done ++ fs) ms.length a)
        (ms.flatMap fun m => string m.1 ++ m.2.bytes) b := by
  induction h with
  | nil a => exact fun _ _ _ _ => takes_pure a
  | @cons name field fs v ms a a' b hfield _ ih =>
      intro hnames hvalues done hnodup
      have hname : name ∉ done.map (·.1) := by
        rw [List.map_append, List.nodup_append] at hnodup
        exact fun hmem => hnodup.2.2 name hmem name (List.mem_cons_self ..) rfl
      have hrest := ih (fun m hm => hnames m (List.mem_cons_of_mem _ hm))
        (fun m hm => hvalues m (List.mem_cons_of_mem _ hm)) (done ++ [(name, field)])
        (by simpa using hnodup)
      rw [List.append_assoc, List.singleton_append] at hrest
      rw [List.flatMap_cons, List.append_assoc, List.length_cons, Reader.members]
      refine (takes_string (hnames _ (List.mem_cons_self ..))).bind ?_
      rw [lookup_append_cons hname]
      exact (hfield (hvalues _ (List.mem_cons_self ..))).bind hrest

/-- A map that names the fields of a record in order is read as the record. -/
theorem reads_record {zero old a : α} {fs : List (String × (α → Reader α))}
    {ms : List (String × Value)} (hnodup : (fs.map (·.1)).Nodup) (h : Fills fs ms old a) :
    Reads (Reader.recordOver zero fs old) (.map ms) a := by
  intro hfits
  cases hfits with
  | map hlength hnames hvalues =>
      obtain ⟨c, bytes, heq, _, hhead⟩ := exists_mapHead_eq ms.length
      rw [Value.bytes_map, heq]
      exact Takes.code (f := fun c => Reader.recordHead c >>= _)
        ((takes_recordHead (hhead hlength)).bind (h.takes_members hnames hvalues [] hnodup))

section Field

variable {value : Reader β} {v : Value} {a : α} {b : β} {set : α → β → α}

theorem Reads.field (h : Reads value v b) : Reads (Reader.field value set a) v (set a b) :=
  h.map (set a)

theorem Reads.fieldOver {get : α → β} {read : β → Reader β} (h : Reads (read (get a)) v b) :
    Reads (Reader.fieldOver get read set a) v (set a b) :=
  h.map (set a)

end Field

end Netlist.MessagePack
