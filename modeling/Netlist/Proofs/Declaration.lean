/-
Module: Netlist.Proofs.Declaration
Layer: Proofs
Purpose: Declared nets and pins. Declaring nets succeeds exactly when the names differ and the widths are
  allowed, and gives the table of the declarations; attaching pins succeeds exactly when the names differ
  and are declared. In a table with at most 2³² nets a name stands for the position of its declaration,
  so what a scope knows about a name is what the description says about it.
Imports: Mathlib.Data.List.Nodup, Netlist.Circuit.Compile, Netlist.Proofs.Sequence
Main exports: Description.width?, Description.scope, declareNets_eq_ok_iff, Scope.Proper,
  Scope.Proper.find_eq_ok_iff, Description.width?_eq_some_iff, attachPins_eq_ok_iff
-/
import Mathlib.Data.List.Nodup
import Netlist.Circuit.Compile
import Netlist.Proofs.Sequence

namespace Netlist

/-!
### Declared nets
-/

namespace Description

/-- The width that a description declares for a net. -/
def width? (d : Description) (name : String) : Option Nat :=
  (d.nets.find? (fun decl => decl.name == name)).map (fun decl => decl.width.toNat)

def netInfo (decl : NetDecl) : NetInfo :=
  ⟨decl.name, decl.width.toNat⟩

/-- The net table of a description. -/
def netTable (d : Description) : Array NetInfo :=
  (d.nets.map netInfo).toArray

/-- What the equations of a description are checked against. -/
def scope (d : Description) (limit : Nat) : Scope :=
  ⟨limit, d.netTable⟩

end Description

/-- A name is found in a net table exactly when a net has it. -/
theorem isSome_findNet?_iff {nets : Array NetInfo} {name : String} :
    (findNet? nets name).isSome = true ↔ name ∈ nets.toList.map NetInfo.name := by
  simp [findNet?, Array.findIdx?_isSome, Array.any_eq_true, Array.mem_iff_getElem]

/-- A net is declared when its width is allowed and its name is new. -/
theorem declareNet_eq_ok_iff {limit : Nat} {declared nets : Array NetInfo} {decl : NetDecl} :
    declareNet limit declared decl = .ok nets ↔
      (0 < decl.width.toNat ∧ decl.width.toNat ≤ limit) ∧
      decl.name ∉ declared.toList.map NetInfo.name ∧
      nets = declared.push (Description.netInfo decl) := by
  rw [declareNet]
  simp only [isSome_findNet?_iff]
  split
  · next hwidth =>
      simp only [reduceCtorEq, false_iff, not_and]
      omega
  · next hwidth =>
      split
      · next hdup => simp [hdup]
      · next hnew =>
          have hallowed : 0 < decl.width.toNat ∧ decl.width.toNat ≤ limit := by omega
          simp only [Except.ok.injEq, hallowed, hnew, not_false_eq_true, true_and, and_self]
          exact eq_comm

theorem foldlM_declareNet_eq_ok_iff {limit : Nat} {decls : List NetDecl}
    {declared nets : Array NetInfo} :
    decls.foldlM (declareNet limit) declared = .ok nets ↔
      (decls.map NetDecl.name).Nodup ∧
      (∀ decl ∈ decls, decl.name ∉ declared.toList.map NetInfo.name) ∧
      (∀ decl ∈ decls, 0 < decl.width.toNat ∧ decl.width.toNat ≤ limit) ∧
      nets = declared ++ (decls.map Description.netInfo).toArray := by
  induction decls generalizing declared with
  | nil =>
      simp only [List.foldlM_nil, List.map_nil, List.nodup_nil, List.not_mem_nil, false_imp_iff,
        implies_true, true_and, Array.append_empty]
      constructor
      · intro h
        injection h with h
        exact h.symm
      · rintro rfl
        rfl
  | cons decl rest ih =>
      rw [List.foldlM_cons, bind_eq_ok_iff]
      simp only [declareNet_eq_ok_iff, List.map_cons, List.nodup_cons, List.forall_mem_cons]
      have happend : (declared.push (Description.netInfo decl)) ++
          (rest.map Description.netInfo).toArray =
          declared ++ (Description.netInfo decl :: rest.map Description.netInfo).toArray := by
        simp
      -- the names of the later nets differ from the earlier ones and from this one
      have hnames : (∀ other ∈ rest, other.name ∉
          (declared.push (Description.netInfo decl)).toList.map NetInfo.name) ↔
          decl.name ∉ rest.map NetDecl.name ∧
            ∀ other ∈ rest, other.name ∉ declared.toList.map NetInfo.name := by
        simp only [Array.toList_push, List.map_append, List.map_cons, List.map_nil,
          List.mem_append, List.mem_singleton, not_or, Description.netInfo, List.mem_map, not_exists,
          not_and]
        constructor
        · intro h
          exact ⟨fun other hother heq => (h other hother).2 heq, fun other hother => (h other hother).1⟩
        · rintro ⟨hne, hold⟩ other hother
          exact ⟨hold other hother, hne other hother⟩
      constructor
      · rintro ⟨table, ⟨hwidth, hnew, rfl⟩, hrest⟩
        obtain ⟨hnodup, hdistinct, hwidths, rfl⟩ := ih.1 hrest
        obtain ⟨hne, hold⟩ := hnames.1 hdistinct
        exact ⟨⟨hne, hnodup⟩, ⟨hnew, hold⟩, ⟨hwidth, hwidths⟩, happend⟩
      · rintro ⟨⟨hne, hnodup⟩, ⟨hnew, hold⟩, ⟨hwidth, hwidths⟩, rfl⟩
        exact ⟨_, ⟨hwidth, hnew, rfl⟩,
          ih.2 ⟨hnodup, hnames.2 ⟨hne, hold⟩, hwidths, happend.symm⟩⟩

/-- Nets can be declared exactly when their names differ and their widths are allowed. -/
theorem declareNets_eq_ok_iff {limit : Nat} {d : Description} {nets : Array NetInfo} :
    declareNets limit d.nets = .ok nets ↔
      (d.nets.map NetDecl.name).Nodup ∧
      (∀ decl ∈ d.nets, 0 < decl.width.toNat ∧ decl.width.toNat ≤ limit) ∧
      nets = d.netTable := by
  rw [declareNets, foldlM_declareNet_eq_ok_iff, Description.netTable]
  simp

/-!
### Names and positions
-/

/-- What compilation establishes about its scope before it looks at pins and equations. -/
structure Scope.Proper (scope : Scope) : Prop where
  /-- Every position has an identifier of its own. -/
  size_le : scope.nets.size ≤ UInt32.size
  nodup : (scope.nets.toList.map NetInfo.name).Nodup
  width_pos : ∀ net ∈ scope.nets.toList, 0 < net.width
  width_le : ∀ net ∈ scope.nets.toList, net.width ≤ scope.limit
  limit_le : scope.limit ≤ Word.maxWidth

namespace Scope

variable {scope : Scope}

theorem find_eq_ok_iff_findNet? {name : String} {id : NetId} :
    scope.find name = .ok id ↔ findNet? scope.nets name = some id := by
  rw [find]
  cases findNet? scope.nets name <;> simp

/-- In a table of at most 2³² nets, the identifier of a name is the position of the first net with it. -/
theorem find_eq_ok_iff_findIdx? (h : scope.nets.size ≤ UInt32.size) {name : String} {id : NetId} :
    scope.find name = .ok id ↔
      scope.nets.findIdx? (fun net => net.name == name) = some id.index := by
  rw [find, findNet?]
  cases hidx : scope.nets.findIdx? (fun net => net.name == name) with
  | none => simp
  | some index =>
      have hlt : index < UInt32.size := by
        obtain ⟨hlt, -⟩ := Array.findIdx?_eq_some_iff_getElem.1 hidx
        exact Nat.lt_of_lt_of_le hlt h
      simp only [Option.map_some, Except.ok.injEq, Option.some.injEq]
      rw [← NetId.index_inj, NetId.index_ofIndex hlt]

/-- A name stands for the position of the net that has it. -/
theorem Proper.find_eq_ok_iff (h : scope.Proper) {name : String} {id : NetId} :
    scope.find name = .ok id ↔ ∃ net, scope.nets[id.index]? = some net ∧ net.name = name := by
  rw [find_eq_ok_iff_findIdx? h.size_le, Array.findIdx?_eq_some_iff_getElem]
  constructor
  · rintro ⟨hlt, hname, -⟩
    exact ⟨_, Array.getElem?_eq_getElem hlt, by simpa using hname⟩
  · rintro ⟨net, hget, rfl⟩
    obtain ⟨hlt, rfl⟩ := Array.getElem?_eq_some_iff.1 hget
    refine ⟨hlt, by simp, ?_⟩
    intro j hj hsame
    -- names differ, so no earlier net has this one
    have hlist := List.nodup_iff_injective_get.1 h.nodup
    have hji : j = id.index := by
      have hfin := @hlist ⟨j, by simpa using Nat.lt_trans hj hlt⟩ ⟨id.index, by simpa using hlt⟩
        (by simpa using hsame)
      simpa using hfin
    omega

/-- Two names that stand for one position are equal. -/
theorem Proper.find_inj (h : scope.Proper) {a b : String} {id : NetId}
    (ha : scope.find a = .ok id) (hb : scope.find b = .ok id) : a = b := by
  obtain ⟨net, hget, rfl⟩ := h.find_eq_ok_iff.1 ha
  obtain ⟨net', hget', rfl⟩ := h.find_eq_ok_iff.1 hb
  rw [hget] at hget'
  cases hget'
  rfl

theorem Proper.index_lt (h : scope.Proper) {name : String} {id : NetId}
    (hfind : scope.find name = .ok id) : id.index < scope.nets.size := by
  obtain ⟨net, hget, -⟩ := h.find_eq_ok_iff.1 hfind
  exact (Array.getElem?_eq_some_iff.1 hget).1

theorem width_of_getElem? {id : NetId} {net : NetInfo} (h : scope.nets[id.index]? = some net) :
    scope.width id = net.width := by
  rw [width, h]

theorem Proper.width_mem (h : scope.Proper) {id : NetId} (hlt : id.index < scope.nets.size) :
    0 < scope.width id ∧ scope.width id ≤ scope.limit := by
  have hget := Array.getElem?_eq_getElem hlt
  have hmem : scope.nets[id.index] ∈ scope.nets.toList := Array.getElem_mem_toList hlt
  rw [width_of_getElem? hget]
  exact ⟨h.width_pos _ hmem, h.width_le _ hmem⟩

/-- A position occurs among identifiers as often as the name of its net among their names. -/
theorem Proper.count_eq (h : scope.Proper) {names : List String}
    {ids : List NetId} (hids : List.Forall₂ (fun name id => scope.find name = .ok id) names ids)
    {i : Nat} {net : NetInfo} (hnet : scope.nets[i]? = some net) :
    (ids.map NetId.index).count i = names.count net.name := by
  induction hids with
  | nil => rfl
  | @cons name id names' ids' hfind _ ih =>
      have hsame : id.index = i ↔ name = net.name := by
        obtain ⟨net', hget, rfl⟩ := h.find_eq_ok_iff.1 hfind
        constructor
        · rintro rfl
          rw [hget] at hnet
          cases hnet
          rfl
        · intro hname
          -- two positions with one name would make a duplicate
          have hlt := (Array.getElem?_eq_some_iff.1 hnet).1
          have hindex : (NetId.ofIndex i).index = i :=
            NetId.index_ofIndex (Nat.lt_of_lt_of_le hlt h.size_le)
          have hother : scope.find net'.name = .ok (NetId.ofIndex i) :=
            h.find_eq_ok_iff.2 ⟨net, by rw [hindex]; exact hnet, hname.symm⟩
          rw [hfind] at hother
          cases hother
          exact hindex
      rw [List.map_cons, List.count_cons, List.count_cons, ih]
      simp only [beq_iff_eq, hsame]

end Scope

namespace Description

variable {d : Description} {limit : Nat}

/-- The scope of declared nets is proper. -/
theorem scope_proper (hsize : d.nets.length ≤ UInt32.size)
    (hnodup : (d.nets.map NetDecl.name).Nodup)
    (hwidth : ∀ decl ∈ d.nets, 0 < decl.width.toNat ∧ decl.width.toNat ≤ limit)
    (hlimit : limit ≤ Word.maxWidth) : (d.scope limit).Proper := by
  have hmem : ∀ net ∈ (d.scope limit).nets.toList, ∃ decl ∈ d.nets, netInfo decl = net := by
    intro net hnet
    simpa [scope, netTable] using hnet
  refine ⟨by simpa [scope, netTable] using hsize, ?_, ?_, ?_, hlimit⟩
  · simpa [scope, netTable, netInfo, Function.comp_def] using hnodup
  · intro net hnet
    obtain ⟨decl, hdecl, rfl⟩ := hmem net hnet
    exact (hwidth decl hdecl).1
  · intro net hnet
    obtain ⟨decl, hdecl, rfl⟩ := hmem net hnet
    exact (hwidth decl hdecl).2

theorem findIdx?_netTable (d : Description) (name : String) :
    d.netTable.findIdx? (fun net => net.name == name) =
      d.nets.findIdx? (fun decl => decl.name == name) := by
  simp [netTable, netInfo, Function.comp_def]

/-- What the scope knows about a name is what the description declares. -/
theorem width?_eq_some_iff (hsize : d.nets.length ≤ UInt32.size) {name : String} {w : Nat} :
    d.width? name = some w ↔
      ∃ id, (d.scope limit).find name = .ok id ∧ (d.scope limit).width id = w := by
  have hsize' : (d.scope limit).nets.size ≤ UInt32.size := by simpa [scope, netTable] using hsize
  have hwidth : ∀ (id : NetId) (hlt : id.index < d.nets.length),
      (d.scope limit).width id = d.nets[id.index].width.toNat := by
    intro id hlt
    have hget : (d.scope limit).nets[id.index]? = some (netInfo d.nets[id.index]) := by
      simp [scope, netTable, hlt]
    exact Scope.width_of_getElem? hget
  rw [width?, Option.map_eq_some_iff]
  simp only [Scope.find_eq_ok_iff_findIdx? hsize', List.find?_eq_some_iff_getElem]
  have htable : (d.scope limit).nets = d.netTable := rfl
  rw [htable, findIdx?_netTable]
  simp only [List.findIdx?_eq_some_iff_getElem]
  constructor
  · rintro ⟨decl, ⟨hname, i, hlt, rfl, hfirst⟩, rfl⟩
    have hindex : (NetId.ofIndex i).index = i :=
      NetId.index_ofIndex (Nat.lt_of_lt_of_le hlt hsize)
    refine ⟨NetId.ofIndex i, ⟨by rw [hindex]; exact hlt, ?_⟩, ?_⟩
    · simp only [hindex]
      exact ⟨hname, fun j hj => by simpa using hfirst j hj⟩
    · rw [hwidth _ (by rw [hindex]; exact hlt)]
      simp only [hindex]
  · rintro ⟨id, ⟨hlt, hname, hfirst⟩, rfl⟩
    refine ⟨d.nets[id.index], ⟨hname, id.index, hlt, rfl, ?_⟩, (hwidth id hlt).symm⟩
    exact fun j hj => by simpa using hfirst j hj

theorem mem_names_iff {name : String} :
    name ∈ d.nets.map NetDecl.name ↔ ∃ w, d.width? name = some w := by
  rw [← Option.isSome_iff_exists, width?, Option.isSome_map, List.find?_isSome]
  simp

/-- A name is declared exactly when the scope finds it. -/
theorem mem_names_iff_find (hsize : d.nets.length ≤ UInt32.size) {name : String} :
    name ∈ d.nets.map NetDecl.name ↔ ∃ id, (d.scope limit).find name = .ok id := by
  rw [mem_names_iff]
  constructor
  · rintro ⟨w, hw⟩
    obtain ⟨id, hid, -⟩ := (width?_eq_some_iff hsize).1 hw
    exact ⟨id, hid⟩
  · rintro ⟨id, hid⟩
    exact ⟨_, (width?_eq_some_iff hsize).2 ⟨id, hid, rfl⟩⟩

end Description

/-!
### Pins
-/

/-- A pin stands at the net of its name. -/
def Scope.Attaches (scope : Scope) (name : String) (pin : Pin) : Prop :=
  pin.name = name ∧ scope.find name = .ok pin.net ∧ pin.width = scope.width pin.net

/-- Pins have the names that they are attached by. -/
theorem Scope.pinNames_eq {scope : Scope} {names : List String} {pins : List Pin}
    (h : List.Forall₂ scope.Attaches names pins) : pins.map Pin.name = names := by
  rw [← List.map_id names]
  exact (map_eq_of_forall₂ h (fun _ _ hpin => hpin.1.symm)).symm

theorem attachPin_eq_ok_iff {scope : Scope} {pins pins' : List Pin} {name : String} :
    attachPin scope pins name = .ok pins' ↔
      name ∉ pins.map Pin.name ∧ ∃ pin, scope.Attaches name pin ∧ pins' = pins ++ [pin] := by
  rw [attachPin]
  have hany : pins.any (fun pin => pin.name == name) = true ↔ name ∈ pins.map Pin.name := by
    simp
  split
  · next hdup => simp [hany.1 hdup]
  · next hnew =>
      rw [hany] at hnew
      rw [bind_eq_ok_iff]
      constructor
      · rintro ⟨net, hfind, heq⟩
        injection heq with heq
        exact ⟨hnew, ⟨name, net, scope.width net⟩, ⟨rfl, hfind, rfl⟩, heq.symm⟩
      · rintro ⟨-, pin, ⟨rfl, hfind, hwidth⟩, rfl⟩
        exact ⟨pin.net, hfind, by rw [← hwidth]⟩

theorem foldlM_attachPin_eq_ok_iff {scope : Scope} {names : List String} {pins pins' : List Pin} :
    names.foldlM (attachPin scope) pins = .ok pins' ↔
      names.Nodup ∧ (∀ name ∈ names, name ∉ pins.map Pin.name) ∧
      ∃ attached, List.Forall₂ scope.Attaches names attached ∧ pins' = pins ++ attached := by
  induction names generalizing pins with
  | nil =>
      simp only [List.foldlM_nil, List.nodup_nil, List.not_mem_nil, false_imp_iff, implies_true,
        true_and, List.forall₂_nil_left_iff, exists_eq_left, List.append_nil]
      constructor
      · intro h
        injection h with h
        exact h.symm
      · rintro rfl
        rfl
  | cons name rest ih =>
      rw [List.foldlM_cons, bind_eq_ok_iff]
      simp only [attachPin_eq_ok_iff, List.nodup_cons, List.forall_mem_cons]
      constructor
      · rintro ⟨_, ⟨hnew, pin, hpin, rfl⟩, hrest⟩
        obtain ⟨hnodup, hdistinct, attached, hattached, rfl⟩ := ih.1 hrest
        refine ⟨⟨?_, hnodup⟩, ⟨hnew, ?_⟩, pin :: attached, .cons hpin hattached, by simp⟩
        · intro hmem
          have hne := hdistinct name hmem
          rw [List.map_append, List.mem_append, not_or] at hne
          exact hne.2 (by simp [hpin.1])
        · intro other hother hmem
          exact hdistinct other hother (by rw [List.map_append]; exact List.mem_append_left _ hmem)
      · rintro ⟨⟨hname, hnodup⟩, ⟨hnew, hold⟩, _, hattached, rfl⟩
        cases hattached with
        | cons hpin hattached =>
            refine ⟨_, ⟨hnew, _, hpin, rfl⟩, ih.2 ⟨hnodup, ?_, _, hattached, by simp⟩⟩
            intro other hother hmem
            rw [List.map_append, List.mem_append] at hmem
            rcases hmem with hmem | hmem
            · exact hold other hother hmem
            · rw [List.map_singleton, List.mem_singleton, hpin.1] at hmem
              exact hname (hmem ▸ hother)

/-- Pins can be attached exactly when their names differ and are declared. -/
theorem attachPins_eq_ok_iff {scope : Scope} {names : List String} {pins : List Pin} :
    attachPins scope names = .ok pins ↔
      names.Nodup ∧ List.Forall₂ scope.Attaches names pins := by
  rw [attachPins, foldlM_attachPin_eq_ok_iff]
  simp

end Netlist
