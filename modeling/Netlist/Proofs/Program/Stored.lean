import Netlist.Program.Snapshot
import Netlist.Proofs.IdMap
import Netlist.Proofs.MessagePack.Record
import Netlist.Proofs.Pattern.Groups

/-!
# Programs are read back from their snapshots

A program is `Storable` if its things stand under their own identifiers and the numbers in
it have 64 bits.  The snapshot of such a program is read back as the program without files
and spans, if its values fit (`Program.ofSnapshot_snapshot`).
-/

namespace Netlist

open MessagePack

/-! ## What can be stored -/

/-- The numbers of the origin have 64 bits. -/
structure Origin.Storable (o : Origin) : Prop where
  segment : -2 ^ 63 ≤ o.segment ∧ o.segment < 2 ^ 63
  parts : ∀ ps ∈ o.parts, ∀ p ∈ ps, p.Storable

/-- The things of a map stand under their own identifiers. -/
def IdMap.Keyed {α : Type} (id : α → Ident) (m : IdMap α) : Prop :=
  ∀ (k : Ident) (a : α), m[k]? = some a → id a = k

structure Module.Storable (m : Module) : Prop where
  nets_keyed : m.nets.Keyed Net.id
  instances_keyed : m.instances.Keyed Instance.id
  endpoints_keyed : m.endpoints.Keyed Endpoint.id
  net_origin : ∀ n ∈ m.nets.items, ∀ o ∈ n.origin, o.Storable
  instance_origin : ∀ i ∈ m.instances.items, ∀ o ∈ i.origin, o.Storable

structure Program.Storable (p : Program) : Prop where
  modules_keyed : p.modules.Keyed Module.id
  devices_keyed : p.devices.Keyed Device.id
  module_storable : ∀ m ∈ p.modules.items, m.Storable

/-! ## Reading -/

namespace Stored

theorem reads_part {p : Netlist.Part} (h : p.Storable) :
    Reads Part.reader (Part.ofPart p).toMessagePack (.ofPart p) := by
  rw [Part.reader]
  intro hfits
  cases p with
  | literal s =>
      rw [Part.ofPart, Part.toMessagePack] at hfits ⊢
      cases hfits with
      | text hlength =>
          obtain ⟨c, bytes, heq, hc, htakes⟩ := exists_text_eq hlength
          rw [Value.bytes, heq]
          refine Takes.depth hc.cases.2.2.2.2 ?_
          rw [← List.append_nil (c :: bytes)]
          exact (takes_loose_text hc htakes).bind (takes_pure _)
  | number n =>
      obtain ⟨c, bytes, heq, hc, htakes⟩ := exists_int_eq h.1 h.2
      rw [Part.ofPart, Part.toMessagePack, Value.bytes, heq]
      refine Takes.depth hc.single ?_
      rw [← List.append_nil (c :: bytes)]
      exact (takes_loose_int hc htakes).bind (takes_pure _)
  | unset => exact h.elim

theorem reads_ident (i : Ident) : Reads readIdent (ident i) i := (reads_text i.bytes).map Ident.mk

theorem reads_param (p : Param) : Reads (Param.readOver {}) p.toMessagePack p :=
  reads_record (by decide) (.cons (.field (reads_text _)) (.cons (.field (reads_text _)) (.nil _)))

theorem reads_params (ps : Option (List Param)) :
    Reads (readParams {}) (paramsToMessagePack ⟨ps, []⟩) ⟨ps, []⟩ :=
  reads_slots_self fun _ _ p _ => reads_param p

/-- Origins are read back, also those with numbers. -/
theorem reads_origin {o : Netlist.Origin} (h : o.Storable) :
    Reads (Origin.readOver {}) (Origin.ofOrigin o).toMessagePack (.ofOrigin o) := by
  have hparts : Reads (Reader.list Part.reader)
      (.ofList? Part.toMessagePack (o.parts.map (·.map Part.ofPart)))
      (o.parts.map (·.map Part.ofPart)) := by
    refine reads_list? fun l hl p hp => ?_
    obtain ⟨ps, hps, rfl⟩ := Option.map_eq_some_iff.mp hl
    obtain ⟨q, hq, rfl⟩ := List.mem_map.mp hp
    exact reads_part (h.parts ps hps q hq)
  exact reads_record (by decide)
    (.cons (.field (reads_ident _)) (.cons (.field (reads_int h.segment.1 h.segment.2))
      (.cons (.field (reads_text _)) (.cons (.field hparts) (.nil _)))))

theorem reads_originOf {o : Option Netlist.Origin} (h : ∀ x ∈ o, x.Storable) :
    Reads (readOrigin none) (.ofOption Origin.toMessagePack (o.map .ofOrigin))
      (o.map .ofOrigin) := by
  refine reads_option (fun _ => startsValue_map _) fun x hx => ?_
  obtain ⟨y, hy, rfl⟩ := Option.map_eq_some_iff.mp hx
  exact reads_origin (h y hy)

theorem reads_ref (r : Ref) : Reads (Ref.readOver {}) r.toMessagePack r := by
  have h : Reads (Ref.readOver {}) r.toMessagePack
      ⟨⟨UInt8.ofNat r.kind.byte.toNat⟩, r.id, r.token⟩ :=
    reads_record (by decide)
      (.cons (.field (reads_uint8 _)) (.cons (.field (reads_ident _))
        (.cons (.field (reads_text _)) (.nil _))))
  rwa [UInt8.ofNat_toNat] at h

theorem reads_net {n : Netlist.Net} (h : ∀ o ∈ n.origin, o.Storable) :
    Reads (Net.readOver {}) (Net.ofNet n).toMessagePack (.ofNet n) :=
  reads_record (by decide)
    (.cons (.field (reads_ident _)) (.cons (.field (reads_text _)) (.cons (.field (reads_bool _))
      (.cons (.fieldOver (reads_originOf h)) (.nil _)))))

theorem reads_instance {i : Netlist.Instance} (h : ∀ o ∈ i.origin, o.Storable) :
    Reads (Instance.readOver {}) (Instance.ofInstance i).toMessagePack (.ofInstance i) :=
  reads_record (by decide)
    (.cons (.field (reads_ident _)) (.cons (.field (reads_text _))
      (.cons (.fieldOver (reads_ref _)) (.cons (.fieldOver (reads_params _))
        (.cons (.fieldOver (reads_originOf h)) (.nil _))))))

theorem reads_endpoint (e : Endpoint) : Reads (Endpoint.readOver {}) e.toMessagePack e :=
  reads_record (by decide)
    (.cons (.field (reads_ident _)) (.cons (.field (reads_ident _)) (.cons (.field (reads_ident _))
      (.cons (.field (reads_text _)) (.cons (.field (reads_bool _)) (.nil _))))))

theorem things_ofThings {α : Type} (items : List α) : things (ofThings items) = items := by
  simp [things, ofThings, Slots.toList]

/-- Things that are read back one by one are read back as a list. -/
theorem reads_things {α β : Type} {zero : α} {thing : α → Reader α} {f : α → Value} {g : β → α}
    {items : List β} (hstart : ∀ a, StartsValue (f a).bytes)
    (h : ∀ b ∈ items, Reads (thing zero) (f (g b)) (g b)) :
    Reads (readThings zero thing {}) (thingsToMessagePack f (ofThings (items.map g)))
      (ofThings (items.map g)) := by
  rw [thingsToMessagePack, things_ofThings]
  refine reads_slots (l := some (items.map g)) fun l hl a ha => ?_
  cases hl
  obtain ⟨b, hb, rfl⟩ := List.mem_map.mp ha
  exact reads_optionOver (hstart _) (h b hb)

theorem reads_ports (ports : Option (List Bytes)) :
    Reads (readPorts none) (portsToMessagePack ports) ports :=
  reads_listOver fun _ _ _ _ => reads_text _

/-- A stored module is read back. -/
theorem reads_module {m : Netlist.Module} (h : m.Storable) :
    Reads Module.reader (Module.ofModule m).toMessagePack (.ofModule m) := by
  have hnets : Reads (readThings {} Net.readOver {})
      (thingsToMessagePack Net.toMessagePack (Module.ofModule m).nets) (Module.ofModule m).nets :=
    reads_things (fun _ => startsValue_map _) fun n hn => reads_net (h.net_origin n hn)
  have hinstances : Reads (readThings {} Instance.readOver {})
      (thingsToMessagePack Instance.toMessagePack (Module.ofModule m).instances)
      (Module.ofModule m).instances :=
    reads_things (fun _ => startsValue_map _) fun i hi =>
      reads_instance (h.instance_origin i hi)
  have hendpoints : Reads (readThings {} Endpoint.readOver {})
      (thingsToMessagePack Endpoint.toMessagePack (Module.ofModule m).endpoints)
      (Module.ofModule m).endpoints :=
    reads_things (fun _ => startsValue_map _) fun e _ => reads_endpoint _
  have hfields : Reads Module.readFields (Module.ofModule m).toMessagePack (.ofModule m) := by
    refine reads_record (by decide) ?_
    refine .cons (.field (reads_ident _)) ?_
    refine .cons (.field (reads_text _)) ?_
    refine .cons (.fieldOver (reads_ports _)) ?_
    refine .cons (.fieldOver (reads_params _)) ?_
    refine .cons (.fieldOver hnets) ?_
    refine .cons (.fieldOver hinstances) ?_
    refine .cons (.fieldOver hendpoints) ?_
    exact .nil _
  unfold Module.reader
  exact hfields.map_eq rfl

theorem reads_backend (b : Netlist.Backend) :
    Reads (Backend.readOver {}) (Backend.ofBackend b).toMessagePack (.ofBackend b) :=
  reads_record (by decide)
    (.cons (.field (reads_text _)) (.cons (.fieldOver (reads_params _)) (.nil _)))

theorem reads_device (d : Netlist.Device) :
    Reads (Device.readOver {}) (Device.ofDevice d).toMessagePack (.ofDevice d) := by
  have hbackends : Reads (Reader.slotsOver {} Backend.readOver {})
      (.ofList? Backend.toMessagePack (Device.ofDevice d).backends.items)
      (Device.ofDevice d).backends := by
    refine reads_slots_self fun l hl b hb => ?_
    obtain ⟨bs, _, rfl⟩ := Option.map_eq_some_iff.mp hl
    obtain ⟨c, _, rfl⟩ := List.mem_map.mp hb
    exact reads_backend c
  exact reads_record (by decide)
    (.cons (.field (reads_ident _)) (.cons (.field (reads_text _))
      (.cons (.fieldOver (reads_ports _)) (.cons (.fieldOver (reads_params _))
        (.cons (.fieldOver hbackends) (.nil _))))))

/-- A stored program is read back. -/
theorem reads_program {p : Netlist.Program} (h : p.Storable) :
    Reads Program.reader (Program.ofProgram p).toMessagePack (.ofProgram p) := by
  have hmodules : Reads (Reader.slotsOver none (Reader.wholeOver {} Module.reader) {})
      (thingsToMessagePack Module.toMessagePack (Program.ofProgram p).modules)
      (Program.ofProgram p).modules := by
    rw [thingsToMessagePack, Program.ofProgram, things_ofThings]
    refine reads_slots (l := some (p.modules.items.map Module.ofModule)) fun l hl m hm => ?_
    cases hl
    obtain ⟨x, hx, rfl⟩ := List.mem_map.mp hm
    exact reads_wholeOver (startsValue_map _) (reads_module (h.module_storable x hx))
  have hdevices : Reads (readThings {} Device.readOver {})
      (thingsToMessagePack Device.toMessagePack (Program.ofProgram p).devices)
      (Program.ofProgram p).devices :=
    reads_things (fun _ => startsValue_map _) fun d _ => reads_device d
  have horder : Reads (Reader.list readIdent) (.ofList? ident p.emitOrder) p.emitOrder :=
    reads_list? fun _ _ i _ => reads_ident i
  have hfields : Reads Program.readFields (Program.ofProgram p).toMessagePack (.ofProgram p) := by
    refine reads_record (by decide) ?_
    refine .cons (.field (reads_ident _)) ?_
    refine .cons (.fieldOver hmodules) ?_
    refine .cons (.fieldOver hdevices) ?_
    refine .cons (.field horder) ?_
    exact .nil _
  unfold Program.reader
  exact hfields.map_eq rfl

theorem reads_snapshot {p : Netlist.Program} (h : p.Storable) :
    Reads Snapshot.reader (Program.ofProgram p).toSnapshot
      ⟨snapshotVersion.toNat, some (.ofProgram p)⟩ := by
  refine reads_record (by decide) ?_
  refine .cons (.field (reads_uint16 _)) ?_
  refine .cons (.fieldOver (reads_wholeOver (startsValue_map _) (reads_program h))) ?_
  exact .nil _

/-- The stored form of a program is read back from its snapshot. -/
theorem Program.ofSnapshot_snapshot {p : Netlist.Program} (h : p.Storable)
    (hfits : (Program.ofProgram p).toSnapshot.Fits) :
    Program.ofSnapshot p.snapshot = .ok (.ofProgram p) := by
  have hread := reads_snapshot h hfits []
  rw [List.append_nil] at hread
  rw [Program.ofSnapshot, Netlist.Program.snapshot, Program.snapshot]
  simp only [StateT.run, hread, bne_self_eq_false, Bool.false_eq_true, if_false]

end Stored

/-! ## Without files and spans -/

/-- The net without its span. -/
def Net.withoutPlace (n : Net) : Net := { n with span := ⟨0, 0, 0⟩ }

/-- The instance without its span. -/
def Instance.withoutPlace (i : Instance) : Instance := { i with span := ⟨0, 0, 0⟩ }

/-- The endpoint without its span. -/
def Endpoint.withoutPlace (e : Endpoint) : Endpoint := { e with span := ⟨0, 0, 0⟩ }

/-- The module without files and spans. -/
def Module.withoutPlaces (m : Module) : Module :=
  { m with
    file := 0
    span := ⟨0, 0, 0⟩
    nets := m.nets.map fun _ => Net.withoutPlace
    instances := m.instances.map fun _ => Instance.withoutPlace
    endpoints := m.endpoints.map fun _ => Endpoint.withoutPlace }

/-- The device without its file and span. -/
def Device.withoutPlace (d : Device) : Device := { d with file := 0, span := ⟨0, 0, 0⟩ }

/-- The program without files and spans. -/
def Program.withoutPlaces (p : Program) : Program :=
  { p with
    modules := p.modules.map fun _ => Module.withoutPlaces
    devices := p.devices.map fun _ => Device.withoutPlace }

/-- A map is made again from its things. -/
theorem IdMap.ofItems_map_items {α β : Type} {m : IdMap α} {id : α → Ident} {id' : β → Ident}
    {f : α → β} (hm : m.Keyed id) (hf : ∀ a, id' (f a) = id a) :
    IdMap.ofItems id' (m.items.map f) = m.map fun _ => f := by
  refine Std.ExtTreeMap.ext_getElem? fun k => ?_
  rw [getElem?_ofItems, Std.ExtTreeMap.getElem?_map]
  have hmem : ∀ b, (m.items.map f).reverse.find? (id' · == k) = some b →
      (m[k]?).map f = some b := by
    intro b hb
    obtain ⟨a, ha, rfl⟩ := List.mem_map.mp (List.mem_reverse.mp (List.mem_of_find?_eq_some hb))
    obtain ⟨k', hk'⟩ := mem_items.mp ha
    have hk : id a = k := by
      rw [← hf]
      simpa using List.find?_some hb
    rw [← hk, hm k' a hk', hk']
    rfl
  cases hfind : (m.items.map f).reverse.find? (id' · == k) with
  | some b => exact (hmem b hfind).symm
  | none =>
      cases hk : m[k]? with
      | none => rfl
      | some a =>
          have ha : f a ∈ (m.items.map f).reverse :=
            List.mem_reverse.mpr (List.mem_map_of_mem (mem_items.mpr ⟨k, hk⟩))
          have := List.find?_eq_none.mp hfind _ ha
          simp [hf, hm k a hk] at this

namespace Stored

@[simp] theorem toPart_ofPart (p : Netlist.Part) : (Part.ofPart p).toPart = p := by
  cases p <;> simp [Part.ofPart, Part.toPart]

@[simp] theorem toOrigin_ofOrigin (o : Netlist.Origin) : (Origin.ofOrigin o).toOrigin = o := by
  simp [Origin.ofOrigin, Origin.toOrigin, Function.comp_def]

@[simp] theorem toRef_ofRef (r : Netlist.Ref) : (Ref.ofRef r).toRef = r := by
  simp [Ref.ofRef, Ref.toRef]

@[simp] theorem toParam_ofParam (p : Netlist.Param) : (Param.ofParam p).toParam = p := by
  simp [Param.ofParam, Param.toParam]

@[simp] theorem toParams_ofParams (ps : Option (List Netlist.Param)) :
    toParams (ofParams ps) = ps := by
  simp [ofParams, toParams, Function.comp_def]

@[simp] theorem toNames_ofNames (names : Option (List String)) :
    toNames (ofNames names) = names := by
  simp [ofNames, toNames, Function.comp_def]

@[simp] theorem toNet_ofNet (n : Netlist.Net) : (Net.ofNet n).toNet = n.withoutPlace := by
  simp [Net.ofNet, Net.toNet, Net.withoutPlace, Function.comp_def]

@[simp] theorem toInstance_ofInstance (i : Netlist.Instance) :
    (Instance.ofInstance i).toInstance = i.withoutPlace := by
  simp [Instance.ofInstance, Instance.toInstance, Instance.withoutPlace, Function.comp_def]

@[simp] theorem toEndpoint_ofEndpoint (e : Netlist.Endpoint) :
    (Endpoint.ofEndpoint e).toEndpoint = e.withoutPlace := by
  simp [Endpoint.ofEndpoint, Endpoint.toEndpoint, Endpoint.withoutPlace]

/-- The things that are stored are those of the map. -/
theorem ofItems_things {α β γ : Type} {m : IdMap α} {id : α → Ident} (store : α → β)
    (restore : β → γ) (f : α → γ) (id' : γ → Ident) (hm : m.Keyed id)
    (hf : ∀ a, id' (f a) = id a) (h : ∀ a ∈ m.items, restore (store a) = f a) :
    IdMap.ofItems id' ((things (ofThings (m.items.map store))).map restore) = m.map fun _ => f := by
  have hmap : (m.items.map store).map restore = m.items.map f := by
    rw [List.map_map]
    exact List.map_congr_left h
  rw [things_ofThings, hmap]
  exact IdMap.ofItems_map_items hm hf

/-- Storing a module forgets its places only. -/
theorem toModule_ofModule {m : Netlist.Module} (h : m.Storable) :
    (Module.ofModule m).toModule = m.withoutPlaces := by
  have hnets := ofItems_things Net.ofNet Net.toNet Netlist.Net.withoutPlace Netlist.Net.id
    h.nets_keyed (fun _ => rfl) fun n _ => toNet_ofNet n
  have hinstances := ofItems_things Instance.ofInstance Instance.toInstance
    Netlist.Instance.withoutPlace Netlist.Instance.id h.instances_keyed (fun _ => rfl)
    fun i _ => toInstance_ofInstance i
  have hendpoints := ofItems_things Endpoint.ofEndpoint Endpoint.toEndpoint
    Netlist.Endpoint.withoutPlace Netlist.Endpoint.id h.endpoints_keyed (fun _ => rfl)
    fun e _ => toEndpoint_ofEndpoint e
  simp only [Module.toModule, Module.ofModule, Module.withoutPlaces, hnets, hinstances, hendpoints,
    toParams_ofParams, toNames_ofNames, Bytes.toText_ofString]

theorem toDevice_ofDevice (d : Netlist.Device) : (Device.ofDevice d).toDevice = d.withoutPlace := by
  simp [Device.ofDevice, Device.toDevice, Device.withoutPlace, Backend.ofBackend, Backend.toBackend,
    Function.comp_def]

/-- The stored form of a program stands for the program without files and spans. -/
theorem toProgram_ofProgram {p : Netlist.Program} (h : p.Storable) :
    (Program.ofProgram p).toProgram = p.withoutPlaces := by
  have hmodules := ofItems_things Module.ofModule Module.toModule Netlist.Module.withoutPlaces
    Netlist.Module.id h.modules_keyed (fun _ => rfl)
    fun m hm => toModule_ofModule (h.module_storable m hm)
  have hdevices := ofItems_things Device.ofDevice Device.toDevice Netlist.Device.withoutPlace
    Netlist.Device.id h.devices_keyed (fun _ => rfl) fun d _ => toDevice_ofDevice d
  simp only [Program.toProgram, Program.ofProgram, Netlist.Program.withoutPlaces, hmodules,
    hdevices]

end Stored

end Netlist
