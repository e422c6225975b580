import Mathlib.Data.List.Sort
import Mathlib.Data.String.Basic
import SchemaForms.Text.Dictionary

/-!
# Ordered dictionaries

Placing entries keeps the ascending order of their keys. A dictionary that is made by
insertions has its keys in ascending order, and it is known by what is found in it, whatever
the order of the insertions.
-/

namespace SchemaForms

namespace Entries

variable {κ α : Type} [DecidableEq κ]

theorem lookup_filter_of_mem {keys : List κ} {key : κ} (hkey : key ∈ keys)
    (entries : List (κ × α)) : lookup key (entries.filter (·.1 ∉ keys)) = none := by
  induction entries with
  | nil => rfl
  | cons first rest ih =>
      rw [List.filter_cons]
      split_ifs with hkept
      · rw [lookup, if_neg (by rintro rfl; simp [hkey] at hkept), ih]
      · exact ih

theorem lookup_filter_of_notMem {keys : List κ} {key : κ} (hkey : key ∉ keys)
    (entries : List (κ × α)) :
    lookup key (entries.filter (·.1 ∉ keys)) = lookup key entries := by
  induction entries with
  | nil => rfl
  | cons first rest ih =>
      rw [List.filter_cons]
      split_ifs with hkept
      · rw [lookup, lookup, ih]
      · rw [lookup, if_neg (by rintro rfl; simp [hkey] at hkept), ih]

variable [LT κ]

theorem mem_of_mem_place [DecidableLT κ] {key : κ} {value : α} {entry : κ × α}
    {entries : List (κ × α)} (h : entry ∈ place key value entries) :
    entry = (key, value) ∨ entry ∈ entries := by
  induction entries with
  | nil => exact .inl (List.mem_singleton.mp h)
  | cons first rest ih =>
      obtain ⟨other, old⟩ := first
      simp only [place] at h
      split_ifs at h <;> grind

theorem pairwise_place [DecidableLT κ] [IsStrictTotalOrder κ (· < ·)] {entries : List (κ × α)}
    (h : entries.Pairwise (·.1 < ·.1)) (key : κ) (value : α) :
    (place key value entries).Pairwise (·.1 < ·.1) := by
  induction entries with
  | nil => exact List.pairwise_singleton _ _
  | cons first rest ih =>
      obtain ⟨other, old⟩ := first
      rw [List.pairwise_cons] at h
      simp only [place]
      split_ifs with hsame hbefore
      · exact List.pairwise_cons.mpr ⟨hsame ▸ h.1, h.2⟩
      · refine List.pairwise_cons.mpr ⟨?_, List.pairwise_cons.mpr h⟩
        rw [List.forall_mem_cons]
        exact ⟨hbefore, fun entry hentry => trans_of (· < ·) hbefore (h.1 entry hentry)⟩
      · refine List.pairwise_cons.mpr ⟨fun entry hentry => ?_, ih h.2⟩
        rcases mem_of_mem_place hentry with rfl | hentry
        · exact (trichotomous_of (· < ·) key other).resolve_left hbefore |>.resolve_left hsame
        · exact h.1 entry hentry

theorem lookup_eq_some_iff [IsStrictTotalOrder κ (· < ·)] {entries : List (κ × α)}
    (h : entries.Pairwise (·.1 < ·.1)) {key : κ} {value : α} :
    lookup key entries = some value ↔ (key, value) ∈ entries := by
  induction entries with
  | nil => simp [lookup]
  | cons first rest ih =>
      obtain ⟨other, old⟩ := first
      rw [List.pairwise_cons] at h
      rw [lookup, List.mem_cons, Prod.mk.injEq]
      split_ifs with hsame
      · -- The keys behind the first one are all greater.
        have hrest : (key, value) ∉ rest := fun hin => irrefl_of (· < ·) key (hsame ▸ h.1 _ hin)
        simp [hsame, hrest, eq_comm]
      · simp [ih h.2, Ne.symm hsame]

end Entries

namespace Text.Dictionary

variable {α : Type}

def Ordered (dictionary : Dictionary α) : Prop := dictionary.entries.Pairwise (·.1 < ·.1)

def eraseAll (keys : List String) (dictionary : Dictionary α) : Dictionary α :=
  ⟨dictionary.entries.filter (·.1 ∉ keys)⟩

@[simp] theorem eraseAll_nil (dictionary : Dictionary α) : dictionary.eraseAll [] = dictionary := by
  simp [eraseAll]

@[simp] theorem ordered_empty : (empty : Dictionary α).Ordered := .nil

theorem Ordered.insert {dictionary : Dictionary α} (h : dictionary.Ordered) (key : String)
    (value : α) : (dictionary.insert key value).Ordered :=
  Entries.pairwise_place h key value

theorem Ordered.eraseAll {dictionary : Dictionary α} (h : dictionary.Ordered)
    (keys : List String) : (dictionary.eraseAll keys).Ordered :=
  List.Pairwise.filter _ h

/-- Ordered dictionaries in which the same is found are the same. -/
theorem Ordered.ext {dictionary other : Dictionary α} (h : dictionary.Ordered)
    (hother : other.Ordered) (hsame : ∀ key, dictionary.get? key = other.get? key) :
    dictionary = other := by
  obtain ⟨entries⟩ := dictionary
  obtain ⟨others⟩ := other
  congr 1
  have hmem : ∀ entry, entry ∈ entries ↔ entry ∈ others := by
    rintro ⟨key, value⟩
    rw [← Entries.lookup_eq_some_iff h, ← Entries.lookup_eq_some_iff hother]
    exact Eq.congr (hsame key) rfl
  have hnodup : ∀ {list : List (String × α)}, list.Pairwise (·.1 < ·.1) → list.Nodup :=
    fun hlist => hlist.imp fun hlt heq => hlt.ne (congrArg Prod.fst heq)
  exact ((List.perm_ext_iff_of_nodup (hnodup h) (hnodup hother)).mpr hmem).eq_of_pairwise
    (fun first second _ _ hlt hgt => absurd hgt hlt.asymm) h hother

end Text.Dictionary

end SchemaForms
