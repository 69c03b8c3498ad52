import Mathlib

/-!
# Intrusive doubly linked lists

A list threaded through reusable slots by two links each.  `Orders` says which
slots it visits; detaching a slot erases it from that order and attaching one
puts it in front.
-/

namespace PacketCore

open List

/-- The links of every slot and the two ends of the list. -/
@[ext]
structure Links where
  older : ℕ → Option ℕ
  newer : ℕ → Option ℕ
  head : Option ℕ
  tail : Option ℕ

namespace Links

/-- A stretch of the list, entered from `before` and left towards `after`. -/
def Stretch (links : Links) : Option ℕ → List ℕ → Option ℕ → Prop
  | _, [], _ => True
  | before, slot :: rest, after =>
    links.newer slot = before ∧ links.older slot = rest.head?.or after ∧
      Stretch links (some slot) rest after

/-- The list visits exactly these slots, newest first. -/
structure Orders (links : Links) (order : List ℕ) : Prop where
  nodup : order.Nodup
  head_eq : links.head = order.head?
  tail_eq : links.tail = order.getLast?
  stretch : links.Stretch none order none

/-- Detach a slot. -/
def unlink (links : Links) (slot : ℕ) : Links where
  older := fun other =>
    if links.newer slot = some other then links.older slot
    else if other = slot then none else links.older other
  newer := fun other =>
    if links.older slot = some other then links.newer slot
    else if other = slot then none else links.newer other
  head := if links.newer slot = none then links.older slot else links.head
  tail := if links.older slot = none then links.newer slot else links.tail

/-- Attach a slot as the newest. -/
def linkFront (links : Links) (slot : ℕ) : Links where
  older := fun other => if other = slot then links.head else links.older other
  newer := fun other =>
    if links.head = some other then some slot
    else if other = slot then none else links.newer other
  head := some slot
  tail := links.tail.or (some slot)

variable {links other : Links} {before after next : Option ℕ}
  {slots left right order : List ℕ} {slot : ℕ}

theorem stretch_append :
    links.Stretch before (left ++ right) after ↔
      links.Stretch before left (right.head?.or after) ∧
        links.Stretch (left.getLast?.or before) right after := by
  induction left generalizing before with
  | nil => simp [Stretch]
  | cons first rest ih =>
    have hhead : (rest ++ right).head?.or after = rest.head?.or (right.head?.or after) := by
      cases rest <;> simp
    have hlast : (first :: rest).getLast?.or before = rest.getLast?.or (some first) := by
      cases rest <;> simp [getLast?_cons]
    rw [cons_append, Stretch, ih, Stretch, hhead, hlast]
    simp only [and_assoc]

section

variable (hstretch : links.Stretch before slots after)
include hstretch

/-- A stretch only depends on the links of its slots. -/
theorem Stretch.congr
    (hnewer : ∀ slot ∈ slots, other.newer slot = links.newer slot)
    (holder : ∀ slot ∈ slots, other.older slot = links.older slot) :
    other.Stretch before slots after := by
  induction slots generalizing before with
  | nil => trivial
  | cons _ _ ih =>
    obtain ⟨hfirst, hnext, hrest⟩ := hstretch
    refine ⟨?_, ?_, ih hrest ?_ ?_⟩
    · rw [hnewer _ mem_cons_self, hfirst]
    · rw [holder _ mem_cons_self, hnext]
    · exact fun slot hslot => hnewer _ (mem_cons_of_mem _ hslot)
    · exact fun slot hslot => holder _ (mem_cons_of_mem _ hslot)

/-- Entering a stretch from elsewhere only changes its first slot. -/
theorem Stretch.enter (hnodup : slots.Nodup)
    (hfirst : ∀ slot, slots.head? = some slot → other.newer slot = next)
    (hnewer : ∀ slot ∈ slots, slots.head? ≠ some slot → other.newer slot = links.newer slot)
    (holder : ∀ slot ∈ slots, other.older slot = links.older slot) :
    other.Stretch next slots after := by
  cases slots with
  | nil => trivial
  | cons =>
    obtain ⟨_, hnext, hrest⟩ := hstretch
    refine ⟨hfirst _ rfl, ?_, hrest.congr ?_ ?_⟩
    · rw [holder _ mem_cons_self, hnext]
    · intro slot hslot
      apply hnewer _ (mem_cons_of_mem _ hslot)
      rintro ⟨⟩
      exact (nodup_cons.mp hnodup).1 hslot
    · exact fun slot hslot => holder _ (mem_cons_of_mem _ hslot)

/-- Leaving a stretch for elsewhere only changes its last slot. -/
theorem Stretch.leave (hnodup : slots.Nodup)
    (hlast : ∀ slot, slots.getLast? = some slot → other.older slot = next)
    (holder : ∀ slot ∈ slots, slots.getLast? ≠ some slot → other.older slot = links.older slot)
    (hnewer : ∀ slot ∈ slots, other.newer slot = links.newer slot) :
    other.Stretch before slots next := by
  induction slots generalizing before with
  | nil => trivial
  | cons first rest ih =>
    obtain ⟨hfirst, hnext, hrest⟩ := hstretch
    have hnew : other.newer first = before := by
      rw [hnewer _ mem_cons_self, hfirst]
    cases rest with
    | nil => exact ⟨hnew, hlast _ rfl, trivial⟩
    | cons =>
      have hnodupRest := nodup_cons.mp hnodup
      refine ⟨hnew, ?_, ih hrest hnodupRest.2 ?_ ?_ ?_⟩
      · rw [holder _ mem_cons_self ?_, hnext]
        · rfl
        · intro hsame
          exact hnodupRest.1 (mem_of_getLast? hsame)
      · intro slot hslot
        exact hlast _ (by rw [getLast?_cons_cons, hslot])
      · intro slot hslot _
        exact holder _ (mem_cons_of_mem _ hslot) (by rwa [getLast?_cons_cons])
      · exact fun slot hslot => hnewer _ (mem_cons_of_mem _ hslot)

end

section

variable (horders : links.Orders order)
include horders

/-- The order only depends on the links of the visited slots and on the ends. -/
theorem Orders.congr (hnewer : ∀ slot ∈ order, other.newer slot = links.newer slot)
    (holder : ∀ slot ∈ order, other.older slot = links.older slot)
    (hhead : other.head = links.head)
    (htail : other.tail = links.tail) : other.Orders order where
  nodup := horders.nodup
  head_eq := hhead.trans horders.head_eq
  tail_eq := htail.trans horders.tail_eq
  stretch := horders.stretch.congr hnewer holder

/-- The neighbours of a visited slot are visited. -/
theorem Orders.neighbours (hslot : slot ∈ order) {near : ℕ}
    (hnear : links.newer slot = some near ∨ links.older slot = some near) : near ∈ order := by
  obtain ⟨_, _, rfl⟩ := append_of_mem hslot
  obtain ⟨_, hnewer, holder, _⟩ := stretch_append.mp horders.stretch
  rw [Option.or_none] at hnewer holder
  rw [hnewer, holder] at hnear
  rcases hnear with hlast | hhead
  · exact mem_append_left _ (mem_of_getLast? hlast)
  · exact mem_append_right _ (mem_cons_of_mem _ (mem_of_head? hhead))

/-- Detaching a slot erases it from the order. -/
theorem Orders.unlink (hslot : slot ∈ order) : (links.unlink slot).Orders (order.erase slot) := by
  obtain ⟨left, right, rfl⟩ := append_of_mem hslot
  have hnodup := horders.nodup
  rw [nodup_append] at hnodup
  obtain ⟨hleft, hright, hdisjoint⟩ := hnodup
  rw [nodup_cons] at hright
  have hnotLeft : slot ∉ left := fun hmem => hdisjoint _ hmem _ mem_cons_self rfl
  have herase : (left ++ slot :: right).erase slot = left ++ right := by
    rw [erase_append_right _ hnotLeft, erase_cons_head]
  obtain ⟨hstretchLeft, hnewer, holder, hstretchRight⟩ := stretch_append.mp horders.stretch
  have hpast : ∀ other ∈ left, other ≠ slot ∧ right.head? ≠ some other := by
    intro other hother
    refine ⟨fun heq => hnotLeft (heq ▸ hother), fun hhead => ?_⟩
    exact hdisjoint _ hother _ (mem_cons_of_mem _ (mem_of_head? hhead)) rfl
  have hahead : ∀ other ∈ right, other ≠ slot ∧ left.getLast? ≠ some other := by
    intro other hother
    refine ⟨fun heq => hright.1 (heq ▸ hother), fun hlast => ?_⟩
    exact hdisjoint _ (mem_of_getLast? hlast) _ (mem_cons_of_mem _ hother) rfl
  rw [herase]
  constructor
  · rw [nodup_append]
    exact ⟨hleft, hright.2, fun a ha b hb =>
      hdisjoint a ha b (mem_cons_of_mem _ hb)⟩
  · cases left with
    | nil => simp [Links.unlink, hnewer, holder]
    | cons => simp [Links.unlink, hnewer, horders.head_eq, getLast?_cons]
  · cases right with
    | nil => simp [Links.unlink, hnewer, holder]
    | cons => simp [Links.unlink, holder, horders.tail_eq, getLast?_append, getLast?_cons]
  · rw [stretch_append]
    constructor
    · apply hstretchLeft.leave hleft
      · intro _ hlast
        simp [Links.unlink, hnewer, holder, hlast]
      · intro other hother hne
        simp [Links.unlink, hnewer, hne, (hpast _ hother).1]
      · intro other hother
        simp [Links.unlink, holder, hpast _ hother]
    · apply hstretchRight.enter hright.2
      · intro first hfirst
        simp [Links.unlink, hnewer, holder, hfirst]
      · intro other hother hne
        simp [Links.unlink, holder, hne, (hahead _ hother).1]
      · intro other hother
        simp [Links.unlink, hnewer, hahead _ hother]

/-- Attaching a slot puts it in front of the order. -/
theorem Orders.linkFront (hslot : slot ∉ order) :
    (links.linkFront slot).Orders (slot :: order) := by
  have hne : ∀ other ∈ order, other ≠ slot := fun other hother heq => hslot (heq ▸ hother)
  have hhead : order.head? ≠ some slot := fun hmem => hslot (mem_of_head? hmem)
  constructor
  · exact nodup_cons.mpr ⟨hslot, horders.nodup⟩
  · rfl
  · cases order <;> simp [Links.linkFront, horders.tail_eq, getLast?_cons]
  · refine ⟨?_, ?_, ?_⟩
    · simp [Links.linkFront, horders.head_eq, hhead]
    · simp [Links.linkFront, horders.head_eq]
    · apply horders.stretch.enter horders.nodup
      · intro _ hfirst
        simp [Links.linkFront, horders.head_eq, hfirst]
      · intro other hother hfirst
        simp [Links.linkFront, horders.head_eq, hfirst, hne _ hother]
      · intro other hother
        simp [Links.linkFront, hne _ hother]

end

/-! ## Walks -/

/-- The slots met when following a link from `start`. -/
def walk (link : ℕ → Option ℕ) : ℕ → Option ℕ → List ℕ
  | 0, _ => []
  | _ + 1, none => []
  | fuel + 1, some slot => slot :: walk link fuel (link slot)

theorem walk_older (hstretch : links.Stretch before slots none) {fuel : ℕ}
    (hfuel : slots.length ≤ fuel) : walk links.older fuel slots.head? = slots := by
  induction slots generalizing before fuel with
  | nil => cases fuel <;> rfl
  | cons _ _ ih =>
    obtain ⟨_, hnext, hrest⟩ := hstretch
    cases fuel with
    | zero => simp at hfuel
    | succ =>
      rw [Option.or_none] at hnext
      rw [head?_cons, walk, hnext, ih hrest (by simpa using hfuel)]

theorem walk_newer (hstretch : links.Stretch none slots after) {fuel : ℕ}
    (hfuel : slots.length ≤ fuel) : walk links.newer fuel slots.getLast? = slots.reverse := by
  induction slots using reverseRecOn generalizing after fuel with
  | nil => cases fuel <;> rfl
  | append_singleton _ _ ih =>
    obtain ⟨hrest, hlast, _⟩ := stretch_append.mp hstretch
    cases fuel with
    | zero => simp at hfuel
    | succ =>
      rw [Option.or_none] at hlast
      rw [getLast?_append, getLast?_singleton, Option.some_or, walk, hlast,
        ih hrest (by simpa using hfuel), reverse_append]
      rfl

end Links

end PacketCore
