import ScalarStore.Proofs.Collection.Expiry
import ScalarStore.Proofs.Collection.Loading

/-! # Collections that can be made again

What the operations have checked of a collection they find right again: its name and schema, its
properties, its partitions and its rows. -/

namespace ScalarStore

namespace Collection

variable {settings : Settings} {now : Binary64} {c d : Collection} {name : String}

/-- All parts of a collection pass the checks with which it is made again, and all its rows were
inserted at one reading of the clock. -/
structure Restorable (settings : Settings) (now : Binary64) (c : Collection) : Prop where
  configured : c.settings = settings
  named : Text.isBlankText c.name = false
  possible : newFault? settings c.name c.schema = none
  headed : c.Headed
  checked : c.properties.Checked
  settled : ∀ row ∈ c.stored, c.schema.Settled settings.defaultLength row.record
  timed : ∀ row ∈ c.stored, row.insertedAt = now

theorem checked_of_alterProperties {entries : List (Value × Value)} (h : c.properties.Checked)
    (hd : c.alterProperties entries = .ok d) : d.properties.Checked := by
  obtain ⟨updates, -, hd⟩ := bind_eq_ok_iff.mp hd
  obtain ⟨⟨⟩, hcheck, hd⟩ := bind_eq_ok_iff.mp hd
  cases hd
  exact h.putAll hcheck

theorem restorable_new {schema : Schema} {properties description : Value} (now : Binary64)
    (hblank : Text.isBlankText name = false)
    (h : new settings name schema properties description = .ok c) :
    c.Restorable settings now := by
  have hstored : c.stored = [] := by simp [stored, rowsIn_of_new h]
  have hfault := newFault?_of_new h
  have hheaded := headed_new h
  have hchecked : c.properties.Checked := by
    unfold new at h
    split at h
    · cases h
    · obtain ⟨entries, -, h⟩ := bind_eq_ok_iff.mp h
      exact checked_of_alterProperties Properties.checked_empty h
  obtain ⟨updated, rfl⟩ := new_eq_ok h
  exact {
    configured := rfl
    named := hblank
    possible := hfault
    headed := hheaded
    checked := hchecked
    settled := by simp [hstored]
    timed := by simp [hstored] }

namespace Restorable

theorem withProperties (h : c.Restorable settings now) {properties : Properties}
    (hp : properties.Checked) : { c with properties := properties }.Restorable settings now :=
  { h with checked := hp }

theorem createPartition (h : c.Restorable settings now) (hd : c.createPartition name = .ok d) :
    d.Restorable settings now := by
  have hstored := stored_createPartition hd
  have hheaded := h.headed.createPartition hd
  obtain ⟨-, rfl⟩ := createPartition_eq_ok hd
  exact {
    configured := h.configured
    named := h.named
    possible := h.possible
    headed := hheaded
    checked := h.checked
    settled := hstored ▸ h.settled
    timed := hstored ▸ h.timed }

theorem dropPartition (h : c.Restorable settings now) (hd : c.dropPartition name = .ok d) :
    d.Restorable settings now := by
  have hstored := stored_dropPartition hd
  have hheaded := h.headed.dropPartition hd
  obtain ⟨-, -, rfl⟩ := dropPartition_eq_ok hd
  exact {
    configured := h.configured
    named := h.named
    possible := h.possible
    headed := hheaded
    checked := h.checked
    settled := fun row hr => h.settled row (hstored.mem_iff.mpr (List.mem_append_right _ hr))
    timed := fun row hr => h.timed row (hstored.mem_iff.mpr (List.mem_append_right _ hr)) }

theorem insert {rows keys : List Value} {partition : Option String}
    (h : c.Restorable settings now) (hd : c.insert now rows partition = .ok (keys, d)) :
    d.Restorable settings now := by
  have hheaded := h.headed.insert hd
  obtain ⟨records, hrecords, -, -, -, -, he⟩ := insert_eq_ok hd
  have hstored := stored_insert hrecords hd
  rw [h.configured] at hrecords
  subst he
  exact {
    configured := h.configured
    named := h.named
    possible := h.possible
    headed := hheaded
    checked := h.checked
    settled := by
      intro row hr
      rcases List.mem_append.mp (hstored.mem_iff.mp hr) with hold | hnew
      · exact h.settled row hold
      · exact Schema.settled_of_mem_records hrecords (mem_newRows hnew).2
    timed := by
      intro row hr
      rcases List.mem_append.mp (hstored.mem_iff.mp hr) with hold | hnew
      · exact h.timed row hold
      · obtain ⟨record, -, rfl⟩ := List.mem_map.mp hnew
        rfl }

end Restorable

end Collection

namespace Clocked

variable {settings : Settings} {now : Binary64} {c d : Collection} {action : Action}

/-- An action at one reading of the clock keeps what the checks have found. -/
theorem restorable_step (h : c.Restorable settings now)
    (hs : (Clocked.mk c now).step action = .ok ⟨d, now⟩) : d.Restorable settings now := by
  cases action with
  | createPartition name =>
      obtain ⟨after, hafter, he⟩ := map_eq_ok_iff.mp hs
      cases he
      exact h.createPartition hafter
  | dropPartition name =>
      obtain ⟨after, hafter, he⟩ := map_eq_ok_iff.mp hs
      cases he
      exact h.dropPartition hafter
  | insert rows partition =>
      obtain ⟨⟨keys, after⟩, hafter, he⟩ := map_eq_ok_iff.mp hs
      cases he
      exact h.insert hafter
  | alterProperties entries =>
      obtain ⟨after, hafter, he⟩ := map_eq_ok_iff.mp hs
      cases he
      have hchecked := Collection.checked_of_alterProperties h.checked hafter
      obtain ⟨updated, rfl⟩ := Collection.alterProperties_eq_ok hafter
      exact h.withProperties hchecked
  | dropProperties keys =>
      cases hs
      exact h.withProperties (h.checked.erase keys)
  | setClock other =>
      cases hs
      exact h

end Clocked

end ScalarStore
