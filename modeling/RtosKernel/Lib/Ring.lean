import RtosKernel.Lib.Loop

/-!
# Circular singly linked lists

Nodes of a type `α` linked by a partial map `next` (`none` is the null pointer). `Path next a l b`
follows the links from `a` over the nodes `l` to `b`, and `IsRing next h l` says that following them
from `h` comes back to `h`, with `l` the nodes met on the way. A ring meets every node once
(`IsRing.nodup`), can be entered at any of its nodes (`IsRing.rotate`), and is changed in two ways:
a new node is spliced in after a node (`IsRing.insertAfter`), or linked in at the end. The second
edit is also described for a node that is already on the ring (`IsRing.cut`): the nodes behind it
fall off. `RingAfter next c o` gives the nodes in the order in which a scan that starts behind `c` meets
them.

`traverse` is the `do { visit t; t = t->next; } while (t != stop);` loop over such a list. On a ring
it visits each node once (`traverse_ring`); from a node that the links never come back to it does not
end (`traverse_forever`).
-/

namespace RtosKernel.Lib

variable {α : Type*}

/-- Following `next` from `a` meets the nodes `l`, in this order, and then arrives at `b`. -/
def Path (next : α → Option α) : α → List α → α → Prop
  | a, [], b => a = b
  | a, x :: l, b => x = a ∧ ∃ c, next a = some c ∧ Path next c l b

/-- Following `next` from `h` meets the nodes `l` and then `h` again, for the first time. -/
structure IsRing (next : α → Option α) (h : α) (l : List α) : Prop where
  path : Path next h l h
  starts : ∃ t, l = h :: t ∧ h ∉ t

section Paths

variable {next next' : α → Option α} {a b c h x : α} {l l' p q : List α}

theorem path_append : Path next a (l ++ l') c ↔ ∃ b, Path next a l b ∧ Path next b l' c := by
  induction l generalizing a with
  | nil => simp [Path]
  | cons x l ih =>
    simp only [List.cons_append, Path, ih]
    constructor
    · rintro ⟨hx, d, hd, b, h1, h2⟩
      exact ⟨b, ⟨hx, d, hd, h1⟩, h2⟩
    · rintro ⟨b, ⟨hx, d, hd, h1⟩, h2⟩
      exact ⟨hx, d, hd, b, h1, h2⟩

/-- A path only reads the links of its nodes. -/
theorem Path.congr (hp : Path next a l b) (he : ∀ x ∈ l, next' x = next x) : Path next' a l b := by
  induction l generalizing a with
  | nil => exact hp
  | cons x l ih =>
    obtain ⟨rfl, d, hd, hp⟩ := hp
    exact ⟨rfl, d, (he x (by simp)).trans hd, ih hp fun y hy => he y (by simp [hy])⟩

/-- The links of a path lead from each of its nodes to a later one, or to its end. -/
theorem Path.next_tail (hp : Path next a l b) (hx : x ∈ l) :
    ∃ y, next x = some y ∧ (y ∈ l.tail ∨ y = b) := by
  induction l generalizing a with
  | nil => exact absurd hx (by simp)
  | cons z l ih =>
    obtain ⟨rfl, d, hd, hp⟩ := hp
    rcases List.mem_cons.mp hx with rfl | hx
    · refine ⟨d, hd, ?_⟩
      cases l with
      | nil => exact .inr hp
      | cons w l => exact .inl (by simp [hp.1])
    · obtain ⟨y, hy, hm⟩ := ih hp hx
      exact ⟨y, hy, hm.imp_left List.mem_of_mem_tail⟩

/-- There is one path from `a` to the first occurrence of `h`. -/
theorem Path.unique (h1 : Path next a l h) (h2 : Path next a l' h) (hl : h ∉ l) (hl' : h ∉ l') :
    l = l' := by
  induction l generalizing a l' with
  | nil =>
    cases l' with
    | nil => rfl
    | cons y l' =>
      have : a = h := h1
      exact absurd (by simp [h2.1, this]) hl'
  | cons x l ih =>
    obtain ⟨rfl, d, hd, h1⟩ := h1
    cases l' with
    | nil =>
      have : x = h := h2
      exact absurd (by simp [this]) hl
    | cons y l' =>
      obtain ⟨rfl, d', hd', h2⟩ := h2
      obtain rfl : d = d' := by rw [hd] at hd'; exact Option.some.inj hd'
      rw [ih h1 h2 (fun hm => hl (by simp [hm])) fun hm => hl' (by simp [hm])]

/-- A path to the first occurrence of `h` meets no node twice. -/
theorem Path.nodup (hp : Path next a l h) (hl : h ∉ l) : l.Nodup := by
  induction l generalizing a with
  | nil => exact List.nodup_nil
  | cons x l ih =>
    have hp' := hp
    obtain ⟨rfl, d, hd, hp⟩ := hp
    refine List.nodup_cons.mpr ⟨fun hx => ?_, ih hp fun hm => hl (by simp [hm])⟩
    obtain ⟨p, q, rfl⟩ := List.append_of_mem hx
    obtain ⟨y, -, hy⟩ := path_append.mp hp
    obtain rfl : x = y := hy.1
    have he := hp'.unique hy hl fun hm => hl (by simp only [List.mem_cons, List.mem_append] at hm ⊢; tauto)
    have := congrArg List.length he
    simp at this
    omega

theorem IsRing.nodup (hr : IsRing next h l) : l.Nodup := by
  obtain ⟨t, rfl, ht⟩ := hr.starts
  obtain ⟨-, c, -, hp⟩ := hr.path
  exact List.nodup_cons.mpr ⟨ht, hp.nodup ht⟩

theorem IsRing.head_mem (hr : IsRing next h l) : h ∈ l := by
  obtain ⟨t, rfl, -⟩ := hr.starts
  simp

/-- Two nodes that lead to each other. -/
theorem isRing_pair (hab : a ≠ b) (h1 : next a = some b) (h2 : next b = some a) : IsRing next a [a, b] := by
  refine ⟨⟨rfl, b, h1, rfl, a, h2, rfl⟩, [b], rfl, ?_⟩
  simpa using hab

/-- The ring through a node is unique. -/
theorem IsRing.unique (h1 : IsRing next h l) (h2 : IsRing next h l') : l = l' := by
  obtain ⟨t, rfl, ht⟩ := h1.starts
  obtain ⟨t', rfl, ht'⟩ := h2.starts
  obtain ⟨-, c, hc, hp⟩ := h1.path
  obtain ⟨-, c', hc', hp'⟩ := h2.path
  obtain rfl : c = c' := by rw [hc] at hc'; exact Option.some.inj hc'
  rw [hp.unique hp' ht ht']

/-- A ring can be entered at each of its nodes. -/
theorem IsRing.rotate (hr : IsRing next h (p ++ x :: q)) : IsRing next x (x :: q ++ p) := by
  obtain ⟨y, h1, h2⟩ := path_append.mp hr.path
  obtain rfl : x = y := h2.1
  refine ⟨path_append.mpr ⟨h, h2, h1⟩, q ++ p, rfl, ?_⟩
  have := (List.perm_append_comm.nodup_iff.mp hr.nodup : (x :: q ++ p).Nodup)
  exact (List.nodup_cons.mp this).1

theorem IsRing.of_mem (hr : IsRing next h l) (hx : x ∈ l) : ∃ l', IsRing next x l' ∧ l'.Perm l := by
  obtain ⟨p, q, rfl⟩ := List.append_of_mem hx
  exact ⟨_, hr.rotate, List.perm_append_comm⟩

/-- The links lead from a node of the ring to a node of the ring. -/
theorem IsRing.next_mem (hr : IsRing next h l) (hx : x ∈ l) : ∃ y ∈ l, next x = some y := by
  obtain ⟨l', hr', hperm⟩ := hr.of_mem hx
  obtain ⟨t, rfl, -⟩ := hr'.starts
  obtain ⟨-, c, hc, hp⟩ := hr'.path
  refine ⟨c, hperm.subset ?_, hc⟩
  cases t with
  | nil =>
    have : c = x := hp
    simp [this]
  | cons y t =>
    obtain ⟨rfl, -⟩ := hp
    simp

theorem IsRing.congr (hr : IsRing next h l) (he : ∀ x ∈ l, next' x = next x) : IsRing next' h l :=
  ⟨hr.path.congr he, hr.starts⟩

/-- The last node of the ring points back at its head. -/
theorem IsRing.last (hr : IsRing next h (p ++ [x])) : next x = some h := by
  obtain ⟨y, -, hy⟩ := path_append.mp hr.path
  obtain ⟨rfl, c, hc, he⟩ := hy
  have : c = h := he
  rw [hc, this]

/-- Following the links from behind `c` meets the nodes `o` of the ring, and `c` itself as the last of them. -/
def RingAfter (next : α → Option α) (c : α) (o : List α) : Prop :=
  ∃ q, o = q ++ [c] ∧ IsRing next c (c :: q)

variable {o : List α}

theorem IsRing.after (hr : IsRing next h l) (hc : c ∈ l) : ∃ o, RingAfter next c o ∧ o.Perm l := by
  obtain ⟨l', hr', hperm⟩ := hr.of_mem hc
  obtain ⟨q, rfl, -⟩ := hr'.starts
  refine ⟨q ++ [c], ⟨q, rfl, hr'⟩, ?_⟩
  exact (List.perm_append_comm : (q ++ [c]).Perm ([c] ++ q)).trans hperm

theorem RingAfter.mem (ho : RingAfter next c o) : c ∈ o := by
  obtain ⟨q, rfl, -⟩ := ho
  simp

/-- The scan starts at the node behind `c`. -/
theorem RingAfter.start (ho : RingAfter next c o) : ∃ n, next c = some n ∧ IsRing next n o := by
  obtain ⟨q, rfl, hr⟩ := ho
  obtain ⟨-, d, hd, hp⟩ := hr.path
  refine ⟨d, hd, ?_⟩
  cases q with
  | nil =>
    obtain rfl : d = c := hp
    exact hr
  | cons y q =>
    obtain ⟨rfl, -⟩ := hp
    exact IsRing.rotate (p := [c]) hr

/-- The ring can be entered at each node that the scan meets. -/
theorem RingAfter.ring (ho : RingAfter next c o) (hx : x ∈ o) : ∃ l, IsRing next x l ∧ l.Perm o := by
  obtain ⟨n, -, hr⟩ := ho.start
  exact hr.of_mem hx

theorem RingAfter.nodup (ho : RingAfter next c o) : o.Nodup := by
  obtain ⟨n, -, hr⟩ := ho.start
  exact hr.nodup

/-- The order of the scan behind another node. -/
theorem RingAfter.rotate (ho : RingAfter next c (p ++ x :: q)) : RingAfter next x (q ++ p ++ [x]) := by
  obtain ⟨n, -, hr⟩ := ho.start
  exact ⟨q ++ p, rfl, hr.rotate⟩

end Paths

section Edits

variable [DecidableEq α] {next : α → Option α} {c h x : α} {l p q : List α}

/-- Splicing the new node `x` in after the node `c`. -/
theorem IsRing.insertAfter (hr : IsRing next h (p ++ c :: q)) (hx : x ∉ p ++ c :: q) :
    IsRing (Function.update (Function.update next x (next c)) c (some x)) h (p ++ c :: x :: q) := by
  have hnd := hr.nodup
  have hxp : x ∉ p ∧ x ≠ c ∧ x ∉ q := by simpa using hx
  have hcp : c ∉ p ∧ c ∉ q := by
    rw [List.nodup_append] at hnd
    exact ⟨fun hm => hnd.2.2 c hm c (by simp) rfl, (List.nodup_cons.mp hnd.2.1).1⟩
  have hkeep : ∀ y, y ≠ c → y ≠ x →
      Function.update (Function.update next x (next c)) c (some x) y = next y := by
    intro y h1 h2
    rw [Function.update_of_ne h1, Function.update_of_ne h2]
  obtain ⟨y, h1, h2⟩ := path_append.mp hr.path
  obtain ⟨rfl, d, hd, h2⟩ := h2
  refine ⟨path_append.mpr ⟨c, h1.congr fun y hy => hkeep y ?_ ?_, rfl, x, by simp, rfl, d, ?_, ?_⟩, ?_⟩
  · exact fun e => hcp.1 (e ▸ hy)
  · exact fun e => hxp.1 (e ▸ hy)
  · rw [Function.update_of_ne hxp.2.1, Function.update_self, hd]
  · exact h2.congr fun y hy => hkeep y (fun e => hcp.2 (e ▸ hy)) fun e => hxp.2.2 (e ▸ hy)
  · obtain ⟨t, ht, hht⟩ := hr.starts
    cases p with
    | nil =>
      obtain ⟨rfl, rfl⟩ := List.cons.inj ht
      exact ⟨x :: q, rfl, by simp only [List.mem_cons, not_or]; exact ⟨Ne.symm hxp.2.1, hht⟩⟩
    | cons y p =>
      rw [List.cons_append] at ht
      obtain ⟨rfl, rfl⟩ := List.cons.inj ht
      refine ⟨p ++ c :: x :: q, rfl, ?_⟩
      have hyx : y ≠ x := fun e => hxp.1 (by simp [e])
      simp only [List.mem_append, List.mem_cons, not_or] at hht ⊢
      exact ⟨hht.1, hht.2.1, hyx, hht.2.2⟩

/-- Linking the new node `x` in at the end. -/
theorem IsRing.append (hr : IsRing next h (p ++ [c])) (hx : x ∉ p ++ [c]) :
    IsRing (Function.update (Function.update next c (some x)) x (some h)) h (p ++ [c, x]) := by
  have hxc : x ≠ c := fun e => hx (by simp [e])
  have h1 := hr.insertAfter hx
  refine h1.congr fun y _ => ?_
  rw [hr.last]
  by_cases hyx : y = x
  · subst hyx
    simp [Function.update_of_ne hxc]
  · by_cases hyc : y = c
    · subst hyc
      simp [Function.update_of_ne hyx]
    · simp [Function.update_of_ne, hyx, hyc]

/-- Linking in at the end a node `x` that is already on the ring, with `c` the last node: the nodes
behind `x` are no longer on the ring. -/
theorem IsRing.cut (hr : IsRing next h (p ++ x :: q)) (hp : p ≠ []) (hc : c ∈ x :: q) :
    IsRing (Function.update (Function.update next c (some x)) x (some h)) h (p ++ [x]) := by
  have hnd := List.nodup_append.mp hr.nodup
  have hkeep : ∀ y ∈ p, Function.update (Function.update next c (some x)) x (some h) y = next y := by
    intro y hy
    rw [Function.update_of_ne fun e => hnd.2.2 y hy x (by simp) e,
      Function.update_of_ne fun e => hnd.2.2 y hy c hc e]
  obtain ⟨y, h1, h2⟩ := path_append.mp hr.path
  obtain rfl : x = y := h2.1
  refine ⟨path_append.mpr ⟨x, h1.congr hkeep, rfl, h, by simp, rfl⟩, ?_⟩
  obtain ⟨t, ht, hht⟩ := hr.starts
  cases p with
  | nil => exact absurd rfl hp
  | cons y p =>
    rw [List.cons_append] at ht
    obtain ⟨rfl, rfl⟩ := List.cons.inj ht
    refine ⟨p ++ [x], rfl, fun hm => hht ?_⟩
    simp only [List.mem_append, List.mem_cons, List.not_mem_nil, or_false] at hm ⊢
    tauto

/-- After that edit the links from a node `y` behind `x` lead to `c`, `x` and round the new ring, and
never back to `y`. -/
theorem IsRing.cut_off {y : α} {r r' : List α} (hr : IsRing next h (p ++ x :: (q ++ y :: r)))
    (hp : p ≠ []) (hc : y :: r = r' ++ [c]) :
    ∃ S : α → Prop, S y ∧ ∀ z, S z →
      ∃ w, Function.update (Function.update next c (some x)) x (some h) z = some w ∧ w ≠ y ∧ S w := by
  have hnd := List.nodup_append.mp hr.nodup
  have hndx := List.nodup_cons.mp hnd.2.1
  have hndy : (y :: r).Nodup := (List.nodup_append.mp hndx.2).2.1
  have hcr : c ∈ y :: r := by simp [hc]
  have hring := hr.cut hp (List.mem_cons_of_mem x (List.mem_append_right q hcr))
  have hyx : x ≠ y := fun e => hndx.1 (by simp [e])
  -- the path from `y` to the last node
  obtain ⟨u, -, hu⟩ := path_append.mp hr.path
  obtain ⟨-, d, -, hu⟩ := hu
  obtain ⟨v, -, hv⟩ := path_append.mp hu
  obtain rfl : y = v := hv.1
  rw [hc] at hv hndy
  obtain ⟨w, hw, hwc⟩ := path_append.mp hv
  obtain rfl : c = w := hwc.1
  refine ⟨fun z => z ∈ r' ∨ z = c ∨ z ∈ p ++ [x], ?_, ?_⟩
  · have : y ∈ r' ++ [c] := by simp [← hc]
    simp only [List.mem_append, List.mem_singleton] at this
    tauto
  · rintro z (hz | rfl | hz)
    · have hzr : z ∈ y :: r := by simp [hc, hz]
      have hzx : z ≠ x := fun e => hndx.1 (List.mem_append_right q (e ▸ hzr))
      have hzc : z ≠ c := fun e => (List.nodup_append.mp hndy).2.2 z hz c (by simp) e
      obtain ⟨w, hzw, hw'⟩ := hw.next_tail hz
      refine ⟨w, by rw [Function.update_of_ne hzx, Function.update_of_ne hzc, hzw], ?_, ?_⟩
      · cases r' with
        | nil => exact absurd hz (by simp)
        | cons y' r' =>
          obtain rfl : y = y' := (List.cons.inj hc).1
          rintro rfl
          rcases hw' with hw' | rfl
          · exact (List.nodup_cons.mp (List.nodup_append.mp hndy).1).1 hw'
          · exact (List.nodup_append.mp hndy).2.2 w (by simp) w (by simp) rfl
      · exact hw'.imp List.mem_of_mem_tail .inl
    · have hzx : z ≠ x := fun e => hndx.1 (List.mem_append_right q (e ▸ hcr))
      exact ⟨x, by rw [Function.update_of_ne hzx, Function.update_self], hyx, .inr (.inr (by simp))⟩
    · obtain ⟨w, hwm, hzw⟩ := hring.next_mem hz
      refine ⟨w, hzw, ?_, .inr (.inr hwm)⟩
      rintro rfl
      rcases List.mem_append.mp hwm with hwp | hwx
      · exact hnd.2.2 w hwp w (by simp) rfl
      · exact hyx (List.mem_singleton.mp hwx).symm

end Edits

/-! ## Traversals -/

section Traverse

variable {ε σ : Type*} [DecidableEq α]

/-- One pass of `do { visit t; t = t->next; } while (t != stop);`. Going on from a null link is the
error `null`. -/
def traverseBody (null : ε) (next : σ → α → Option α) (visit : α → σ → σ) (stop : α) :
    α × σ → Except ε ((α × σ) ⊕ σ)
  | (t, s) =>
    match next (visit t s) t with
    | none => .error null
    | some t' => if t' = stop then .ok (.inr (visit t s)) else .ok (.inl (t', visit t s))

/-- The whole traversal from `stop` back to `stop`. -/
def traverse (e null : ε) (next : σ → α → Option α) (visit : α → σ → σ) (stop : α) (n : ℕ) (s : σ) :
    Except ε σ :=
  loop e (traverseBody null next visit stop) n (stop, s)

variable {e null : ε} {next : σ → α → Option α} {visit : α → σ → σ} {stop : α}

/-- From any node of a path to `stop`, the traversal visits the rest of the path. -/
theorem traverse_path (hv : ∀ a s, next (visit a s) = next s) {l : List α} {t : α} {s : σ} {n : ℕ}
    (hp : Path (next s) t l stop) (hne : l ≠ []) (hl : stop ∉ l.tail) (hn : l.length ≤ n) :
    loop e (traverseBody null next visit stop) n (t, s) = .ok (l.foldl (fun s a => visit a s) s) := by
  induction l generalizing t s n with
  | nil => exact absurd rfl hne
  | cons x l ih =>
    obtain ⟨rfl, c, hc, hp⟩ := hp
    obtain ⟨n, rfl⟩ : ∃ k, n = k + 1 := ⟨n - 1, by simp at hn; omega⟩
    have hc' : next (visit x s) x = some c := by rw [hv]; exact hc
    cases l with
    | nil =>
      have hcs : c = stop := hp
      exact loop_exit (by simp [traverseBody, hc', hcs])
    | cons y l =>
      have hcs : c ≠ stop := by
        intro e
        exact hl (by simp [hp.1, e])
      rw [loop_next (t := (c, visit x s)) (by simp [traverseBody, hc', hcs])]
      refine ih (by rw [hv]; exact hp) (by simp) (fun hm => hl ?_) (by simpa using hn)
      simp only [List.tail_cons] at hm ⊢
      exact List.mem_cons_of_mem _ hm

/-- **On a ring the traversal visits every node once and ends.** -/
theorem traverse_ring (hv : ∀ a s, next (visit a s) = next s) {l : List α} {s : σ} {n : ℕ}
    (hr : IsRing (next s) stop l) (hn : l.length ≤ n) :
    traverse e null next visit stop n s = .ok (l.foldl (fun s a => visit a s) s) := by
  obtain ⟨t, rfl, ht⟩ := hr.starts
  exact traverse_path hv hr.path (by simp) (by simpa using ht) hn

/-- What is stored at the nodes of `l` is rewritten by `g`. -/
def rewriteOn {β : Type*} (l : List α) (g : β → β) (f : α → β) (t : α) : β := if t ∈ l then g (f t) else f t

theorem rewriteOn_of_mem {β : Type*} {l : List α} {g : β → β} {f : α → β} {t : α} (ht : t ∈ l) :
    rewriteOn l g f t = g (f t) :=
  if_pos ht

theorem rewriteOn_of_notMem {β : Type*} {l : List α} {g : β → β} {f : α → β} {t : α} (ht : t ∉ l) :
    rewriteOn l g f t = f t :=
  if_neg ht

theorem rewriteOn_perm {β : Type*} {l l' : List α} (hperm : l.Perm l') (g : β → β) (f : α → β) :
    rewriteOn l g f = rewriteOn l' g f := by
  funext t
  simp only [rewriteOn, hperm.mem_iff]

/-- A traversal of a ring whose visits each rewrite what is stored at the node: all nodes of the ring are
rewritten. The stored values are the part `f` of the state, `wrap` is the rest of it. -/
theorem traverse_each {β : Type*} (wrap : (α → β) → σ) (g : β → β)
    (hvisit : ∀ t f, visit t (wrap f) = wrap (Function.update f t (g (f t))))
    (hv : ∀ a s, next (visit a s) = next s) {l : List α} {f : α → β} {n : ℕ}
    (hr : IsRing (next (wrap f)) stop l) (hn : l.length ≤ n) :
    traverse e null next visit stop n (wrap f) = .ok (wrap (rewriteOn l g f)) := by
  rw [traverse_ring hv hr hn]
  have hnd := hr.nodup
  clear hr hn
  induction l generalizing f with
  | nil =>
    have hnone : rewriteOn [] g f = f := funext fun t => rewriteOn_of_notMem List.not_mem_nil
    rw [hnone]
    rfl
  | cons x l ih =>
    obtain ⟨hx, hnd⟩ := List.nodup_cons.mp hnd
    rw [List.foldl_cons, hvisit, ih hnd]
    refine congrArg (fun f => Except.ok (wrap f)) (funext fun t => ?_)
    by_cases ht : t = x
    · subst ht
      simp [rewriteOn, hx]
    · simp [rewriteOn, ht]

/-- What visiting a node keeps holds after a traversal that ends, whatever the links are. -/
theorem traverse_inv {I : σ → Prop} (hv : ∀ a s, I s → I (visit a s)) {n : ℕ} {s s' : σ} (h0 : I s)
    (h : traverse e null next visit stop n s = .ok s') : I s' := by
  refine loop_inv (I := fun x => I x.2) (Q := I) ?_ ?_ h0 h
  · rintro ⟨t, s⟩ ⟨t', u⟩ hs hb
    simp only [traverseBody] at hb
    split at hb
    · cases hb
    · split at hb
      · cases hb
      · cases hb
        exact hv t s hs
  · rintro ⟨t, s⟩ u hs hb
    simp only [traverseBody] at hb
    split at hb
    · cases hb
    · split at hb
      · cases hb
        exact hv t s hs
      · cases hb

/-- **A traversal whose links never lead back to `stop` does not end.** -/
theorem traverse_forever (hv : ∀ a s, next (visit a s) = next s) {S : α → Prop} {s : σ}
    (hS : ∀ x, S x → ∃ y, next s x = some y ∧ y ≠ stop ∧ S y) (h0 : S stop) (n : ℕ) :
    traverse e null next visit stop n s = .error e := by
  refine loop_forever (fun x => S x.1 ∧ next x.2 = next s) ?_ ⟨h0, rfl⟩ n
  rintro ⟨t, s'⟩ ⟨ht, hs'⟩
  obtain ⟨y, hy, hne, hSy⟩ := hS t ht
  have hy' : next (visit t s') t = some y := by rw [hv, hs']; exact hy
  exact ⟨(y, visit t s'), by simp [traverseBody, hy', hne], hSy, by rw [hv, hs']⟩

end Traverse

end RtosKernel.Lib
