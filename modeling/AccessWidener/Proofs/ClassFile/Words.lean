import AccessWidener.Proofs.ClassFile.Refilling

/-!
# Flag Words in Their Places

What a layout records about a flag word is what stands in the file: two bytes at the offset of the
site, most significant first. A file is therefore known from its layout and from the bytes outside
its flag words (`ClassLayout.bytes_ext`), and to compare what different widenings leave of a file it
is enough to compare the layouts.

## Main definitions

* `FlagSite.StandsIn`: A flag word stands in a file.

## Theorems

* `standsIn_of_mem_sites`, `standsIn_of_parse`: The blanks of a form, and the flag words of a
  layout, stand in the file.
* `outside_iff`: Which bytes lie outside the flag words.
* `exists_site_of_getElem?_ne`: Where files differ that agree outside the flag words.
* `bytes_ext`: Files with one layout that agree outside the flag words are equal.
-/

namespace AccessWidener

/-- The flags of a site stand in a file at its offset, most significant byte first. -/
def FlagSite.StandsIn (site : FlagSite) (bytes : Bytes) : Prop :=
  ∃ front back, bytes = front ++ (Bytes.ofUInt16 site.flags ++ back) ∧ front.length = site.offset

/-- A word that stands in a file stands in every longer one. -/
theorem FlagSite.StandsIn.append {site : FlagSite} {bytes : Bytes} (h : site.StandsIn bytes)
    (more : Bytes) : site.StandsIn (bytes ++ more) := by
  rcases h with ⟨front, back, rfl, hfront⟩
  refine ⟨front, back ++ more, ?_, hfront⟩
  rw [List.append_assoc, List.append_assoc]

/-- The two bytes of a word that stands in a file. -/
theorem FlagSite.StandsIn.getElem? {site : FlagSite} {bytes : Bytes} (h : site.StandsIn bytes) :
    bytes[site.offset]? = some (site.flags >>> 8).toUInt8 ∧
      bytes[site.offset + 1]? = some site.flags.toUInt8 := by
  rcases h with ⟨front, back, rfl, hfront⟩
  have hhigh : site.offset - front.length = 0 := by omega
  have hlow : site.offset + 1 - front.length = 1 := by omega
  -- Behind the bytes in front come the two bytes of the word, the high one first.
  constructor
  · rw [List.getElem?_append_right (by omega), hhigh]
    rfl
  · rw [List.getElem?_append_right (by omega), hlow]
    rfl

/-- The blanks of a form stand in its file. -/
theorem Form.standsIn_of_mem_sites {front : Bytes} {form : Form} {site : FlagSite}
    (h : site ∈ Form.sites front.length form) : site.StandsIn (front ++ Form.bytes form) := by
  induction form generalizing front with
  | nil => cases h
  | cons piece rest ih =>
      cases piece with
      | printed bytes =>
          -- The pieces passed over join the bytes in front.
          have hrest := @ih (front ++ bytes) (by rw [List.length_append]; exact h)
          rwa [List.append_assoc] at hrest
      | blank flags =>
          rcases List.mem_cons.mp h with rfl | hmem
          · -- The blank itself: its word follows the bytes in front.
            exact ⟨front, Form.bytes rest, rfl, rfl⟩
          · have hrest := @ih (front ++ Bytes.ofUInt16 flags) (by
              rw [List.length_append, Bytes.length_ofUInt16]
              exact hmem)
            rwa [List.append_assoc] at hrest

namespace ClassLayout

/-- The flag words of a layout stand in the file that it was read from. -/
theorem standsIn_of_parse {bytes : Bytes} {layout : ClassLayout} (h : parse bytes = .ok layout) :
    ∀ site ∈ layout.sites, site.StandsIn bytes := by
  rcases parse_form h with ⟨form, rest, rfl, hsites, -⟩
  intro site hmem
  rw [← hsites] at hmem
  have hform : site.StandsIn ([] ++ Form.bytes form) := Form.standsIn_of_mem_sites hmem
  exact hform.append rest

/-- Which bytes lie outside the flag words is told by the places of the words. -/
theorem outside_iff {layout layout' : ClassLayout}
    (h : layout'.sites.map (·.offset) = layout.sites.map (·.offset)) (i : Nat) :
    (∀ site ∈ layout'.sites, i ≠ site.offset ∧ i ≠ site.offset + 1) ↔
      ∀ site ∈ layout.sites, i ≠ site.offset ∧ i ≠ site.offset + 1 := by
  have hall : (∀ offset ∈ layout'.sites.map (·.offset), i ≠ offset ∧ i ≠ offset + 1) ↔
      ∀ offset ∈ layout.sites.map (·.offset), i ≠ offset ∧ i ≠ offset + 1 := by
    rw [h]
  simpa only [List.forall_mem_map] using hall

/-- Of two files that agree outside the flag words of one of them, a byte that differs belongs to a
    flag word that the other file does not have. -/
theorem exists_site_of_getElem?_ne {bytes bytes' : Bytes} {layout layout' : ClassLayout}
    (h : parse bytes = .ok layout) (h' : parse bytes' = .ok layout')
    (houtside : ∀ i, (∀ site ∈ layout.sites, i ≠ site.offset ∧ i ≠ site.offset + 1) →
      bytes'[i]? = bytes[i]?) {i : Nat} (hne : bytes'[i]? ≠ bytes[i]?) :
    ∃ site ∈ layout.sites, (i = site.offset ∨ i = site.offset + 1) ∧ site ∉ layout'.sites := by
  by_contra hnone
  refine hne (houtside i (fun site hsite => ?_))
  -- A flag word that both files have is the same two bytes in both.
  have hshared : i = site.offset ∨ i = site.offset + 1 → bytes'[i]? = bytes[i]? := by
    intro hword
    have hsite' : site ∈ layout'.sites := by
      by_contra hmissing
      exact hnone ⟨site, hsite, hword, hmissing⟩
    have hheld := (standsIn_of_parse h site hsite).getElem?
    have hheld' := (standsIn_of_parse h' site hsite').getElem?
    rcases hword with rfl | rfl
    · rw [hheld.1, hheld'.1]
    · rw [hheld.2, hheld'.2]
  exact ⟨fun heq => hne (hshared (Or.inl heq)), fun heq => hne (hshared (Or.inr heq))⟩

/-- Two files with one layout that agree outside its flag words are the same file. -/
theorem bytes_ext {bytes bytes' : Bytes} {layout : ClassLayout} (h : parse bytes = .ok layout)
    (h' : parse bytes' = .ok layout)
    (houtside : ∀ i, (∀ site ∈ layout.sites, i ≠ site.offset ∧ i ≠ site.offset + 1) →
      bytes[i]? = bytes'[i]?) : bytes = bytes' := by
  refine List.ext_getElem? (fun i => ?_)
  by_contra hne
  rcases exists_site_of_getElem?_ne h' h houtside hne with ⟨site, hsite, -, hmissing⟩
  exact hmissing hsite

end ClassLayout

end AccessWidener
