import Mathlib.Data.Nat.Bitwise
import Sponge.Router.Safety

namespace Sponge

namespace RoutingTableEntry

/-- The top bits of the two addresses, as many as the prefix has, are the same. -/
def Covers (entry : RoutingTableEntry) (dst : UInt32) : Prop :=
  entry.routePrefix.toNat >>> (32 - min entry.prefixLength.toNat 32) =
    dst.toNat >>> (32 - min entry.prefixLength.toNat 32)

instance (entry : RoutingTableEntry) (dst : UInt32) : Decidable (entry.Covers dst) :=
  inferInstanceAs (Decidable (_ = _))

end RoutingTableEntry

namespace Router

section Matching

variable {dst entryDst mask : UInt32}

/-- The mask has one bit, or none after 32 steps. -/
theorem and_mask_eq_iff (dst entryDst : UInt32) {i : Nat} (hm : mask.toNat = 2 ^ 31 >>> i) :
    dst &&& mask = entryDst &&& mask ↔
      (i < 32 → dst.toNat.testBit (31 - i) = entryDst.toNat.testBit (31 - i)) := by
  rw [← UInt32.toNat_inj, UInt32.toNat_and, UInt32.toNat_and, hm, Nat.shiftRight_eq_div_pow]
  rcases Nat.lt_or_ge i 32 with hi | hi
  · have hpow : 2 ^ 31 / 2 ^ i = 2 ^ (31 - i) := Nat.pow_div (by omega) (by decide)
    have hpos : 2 ^ (31 - i) ≠ 0 := Nat.ne_of_gt (Nat.two_pow_pos _)
    have hbit : ∀ a b : Bool, a.toNat = b.toNat ↔ a = b := by decide
    rw [hpow, Nat.and_two_pow, Nat.and_two_pow, Nat.mul_left_inj hpos, hbit]
    simp [hi]
  · have hzero : 2 ^ 31 / 2 ^ i = 0 :=
      Nat.div_eq_of_lt (Nat.pow_lt_pow_right (by decide) (by omega))
    rw [hzero]
    simp [Nat.not_lt.mpr hi]

theorem match_loop_iff {i : Nat} (n : Nat) (hm : mask.toNat = 2 ^ 31 >>> i) :
    matchLoop dst entryDst mask n = true ↔ ∀ j, i ≤ j → j < i + n → j < 32 →
      dst.toNat.testBit (31 - j) = entryDst.toNat.testBit (31 - j) := by
  induction n generalizing i mask with
  | zero => exact iff_of_true rfl (fun j hle hlt => by omega)
  | succ n ih =>
    have hnext : (mask >>> 1).toNat = 2 ^ 31 >>> (i + 1) := by
      rw [UInt32.toNat_shiftRight, hm, Nat.shiftRight_add]
      rfl
    have hbit := and_mask_eq_iff dst entryDst hm
    rw [matchLoop]
    split
    · rename_i hne
      refine iff_of_false (by simp) (fun h => hne (hbit.mpr (fun hi => ?_)))
      exact h i (Nat.le_refl i) (by omega) hi
    · rename_i heq
      rw [ih hnext]
      have hsame := hbit.mp (not_not.mp heq)
      constructor
      · intro h j hle hlt h32
        rcases Nat.eq_or_lt_of_le hle with rfl | hlt'
        · exact hsame h32
        · exact h j hlt' (by omega) h32
      · intro h j hle hlt h32
        exact h j (by omega) (by omega) h32

/-- The first `m` bits of two addresses. -/
theorem shift_right_eq_iff {a b m : Nat} (ha : a < 2 ^ 32) (hb : b < 2 ^ 32) (hm : m ≤ 32) :
    a >>> (32 - m) = b >>> (32 - m) ↔
      ∀ j, j < m → a.testBit (31 - j) = b.testBit (31 - j) := by
  constructor
  · intro h j hj
    have hbit := congrArg (·.testBit (m - 1 - j)) h
    simp only [Nat.testBit_shiftRight] at hbit
    have hplace : 32 - m + (m - 1 - j) = 31 - j := by omega
    rwa [hplace] at hbit
  · intro h
    apply Nat.eq_of_testBit_eq
    intro k
    rw [Nat.testBit_shiftRight, Nat.testBit_shiftRight]
    rcases Nat.lt_or_ge k m with hk | hk
    · have hbit := h (m - 1 - k) (by omega)
      have hplace : 31 - (m - 1 - k) = 32 - m + k := by omega
      rwa [hplace] at hbit
    · have hbig : ∀ n, n < 2 ^ 32 → n.testBit (32 - m + k) = false := fun n hn =>
        Nat.testBit_lt_two_pow (Nat.lt_of_lt_of_le hn (Nat.pow_le_pow_right (by decide) (by omega)))
      rw [hbig a ha, hbig b hb]

theorem is_match_iff (entry : RoutingTableEntry) (dst : UInt32) :
    isMatch dst entry.routePrefix entry.prefixLength = true ↔ entry.Covers dst := by
  rw [isMatch, match_loop_iff (i := 0) _ (by decide), RoutingTableEntry.Covers,
    shift_right_eq_iff entry.routePrefix.toNat_lt dst.toNat_lt (Nat.min_le_right _ _)]
  constructor
  · intro h j hj
    exact (h j (Nat.zero_le j) (by omega) (by omega)).symm
  · intro h j _ hlt h32
    exact (h j (by omega)).symm

end Matching

/-- The entry covers the address with the longest prefix, and no earlier one has as long a
prefix. -/
structure Best (table : List RoutingTableEntry) (dst : UInt32) (entry : RoutingTableEntry) :
    Prop where
  covers : entry.Covers dst
  place : ∃ before after, table = before ++ entry :: after ∧
    (∀ e ∈ before, e.Covers dst → e.prefixLength < entry.prefixLength) ∧
    ∀ e ∈ after, e.Covers dst → e.prefixLength ≤ entry.prefixLength

section Best

variable {table : List RoutingTableEntry} {dst : UInt32} {entry next : RoutingTableEntry}

theorem Best.le (h : Best table dst entry) {e : RoutingTableEntry} (he : e ∈ table)
    (hc : e.Covers dst) : e.prefixLength ≤ entry.prefixLength := by
  obtain ⟨before, after, rfl, hbefore, hafter⟩ := h.place
  rcases List.mem_append.mp he with he | he
  · exact UInt8.le_of_lt (hbefore e he hc)
  · rcases List.mem_cons.mp he with rfl | he
    · exact UInt8.le_refl _
    · exact hafter e he hc

theorem Best.mem (h : Best table dst entry) : entry ∈ table := by
  obtain ⟨before, after, rfl, -⟩ := h.place
  simp

/-- One more entry does not take the place of the best one, unless its prefix is longer. -/
theorem Best.keep (h : Best table dst entry)
    (hn : next.Covers dst → next.prefixLength ≤ entry.prefixLength) :
    Best (table ++ [next]) dst entry := by
  obtain ⟨before, after, rfl, hbefore, hafter⟩ := h.place
  refine ⟨h.covers, before, after ++ [next], by simp, hbefore, ?_⟩
  intro e he hc
  rcases List.mem_append.mp he with he | he
  · exact hafter e he hc
  · rw [List.mem_singleton.mp he] at hc ⊢
    exact hn hc

theorem best_last (hc : next.Covers dst)
    (h : ∀ e ∈ table, e.Covers dst → e.prefixLength < next.prefixLength) :
    Best (table ++ [next]) dst next :=
  ⟨hc, table, [], rfl, h, by simp⟩

/-- The loop over the table finds the best entry, or there is none that covers the
address. -/
theorem longest_match_best (table : List RoutingTableEntry) (dst : UInt32) :
    (longestMatch table dst = none ∧ ∀ e ∈ table, ¬ e.Covers dst) ∨
      ∃ entry, longestMatch table dst = some entry ∧ Best table dst entry := by
  -- the loop is at the end of the table
  induction table using List.reverseRecOn with
  | nil => exact .inl ⟨rfl, by simp⟩
  | append_singleton table next ih =>
    have hstep : longestMatch (table ++ [next]) dst = better dst (longestMatch table dst) next := by
      simp [longestMatch]
    by_cases hc : next.Covers dst
    · have hmatch := (is_match_iff next dst).mpr hc
      rcases ih with ⟨hnone, hall⟩ | ⟨entry, hsome, hbest⟩
      · refine .inr ⟨next, ?_, best_last hc (fun e he hce => absurd hce (hall e he))⟩
        rw [hstep, hnone, better, if_pos hmatch]
      · rw [hstep, hsome, better, if_pos hmatch]
        split
        · rename_i hlt
          exact .inr ⟨next, rfl,
            best_last hc (fun e he hce => UInt8.lt_of_le_of_lt (hbest.le he hce) hlt)⟩
        · rename_i hge
          exact .inr ⟨entry, rfl, hbest.keep (fun _ => UInt8.not_lt.mp hge)⟩
    · have hmatch : ¬ isMatch dst next.routePrefix next.prefixLength = true :=
        mt (is_match_iff next dst).mp hc
      have hsame : longestMatch (table ++ [next]) dst = longestMatch table dst := by
        rw [hstep]
        exact if_neg hmatch
      rw [hsame]
      rcases ih with ⟨hnone, hall⟩ | ⟨entry, hsome, hbest⟩
      · refine .inl ⟨hnone, fun e he => ?_⟩
        rcases List.mem_append.mp he with he | he
        · exact hall e he
        · rw [List.mem_singleton.mp he]
          exact hc
      · exact .inr ⟨entry, hsome, hbest.keep (fun h => absurd h hc)⟩

end Best

/-- A call of `send_datagram` on one of the interfaces. -/
structure SendCall where
  interfaceNum : Nat
  dgram : InternetDatagram
  nextHop : Address

/-- What a datagram calls for: to be sent on with one hop less along the best route, or, with
no hop left or no route, nothing. -/
def Decides (table : List RoutingTableEntry) (dgram : InternetDatagram) : Option SendCall → Prop
  | none => dgram.header.ttl ≤ 1 ∨ ∀ e ∈ table, ¬ e.Covers dgram.header.dst
  | some call => 1 < dgram.header.ttl ∧ ∃ entry, Best table dgram.header.dst entry ∧
    call = {
      interfaceNum := entry.interfaceNum
      dgram := { dgram with header := { dgram.header with ttl := dgram.header.ttl - 1 } }
      nextHop := entry.nextHop.getD ⟨dgram.header.dst⟩ }

/-- The router after the call, if there is one. -/
def perform (r : Router) : Option SendCall → Router
  | none => r
  | some call =>
    { r with
      interfaces := r.interfaces.modify call.interfaceNum fun a =>
        { a with
          toNetworkInterface := (a.toNetworkInterface.sendDatagram call.dgram call.nextHop).state } }

/-- The datagrams that are to be routed, in the order of `route`. -/
def queued (r : Router) : List InternetDatagram := r.interfaces.flatMap (·.datagramsOut)

/-- The router with all of its queues empty. -/
def emptied (r : Router) : Router :=
  { r with interfaces := r.interfaces.map fun a => { a with datagramsOut := [] } }

/-- The routes name interfaces that exist. -/
def RoutesWell (r : Router) : Prop := ∀ e ∈ r.routingTable, e.interfaceNum < r.interfaces.length

section Sending

variable {r : Router} {dgram : InternetDatagram}

/-- A datagram that can be written is sent on an interface that exists. -/
theorem send_on_eq (dgram : InternetDatagram) (h : dgram.Serializable) {n : Nat}
    (hn : n < r.interfaces.length) (nextHop : Address) :
    r.sendOn n dgram nextHop = .done (r.perform (some ⟨n, dgram, nextHop⟩)) () := by
  have hget : r.interfaces[n]? = some r.interfaces[n] := List.getElem?_eq_getElem hn
  rw [sendOn, hget, perform, List.modify_eq_set_getElem?, hget]
  simp only [NetworkInterface.send_datagram_ok h]
  rfl

/-- One datagram: it is decided on, and what is decided is done. -/
theorem route_one_decides (hr : r.RoutesWell) (h : dgram.Serializable) :
    ∃ call, Decides r.routingTable dgram call ∧ (r.routeOneDatagram dgram).result = .ok () ∧
      (r.routeOneDatagram dgram).state.1 = r.perform call := by
  unfold routeOneDatagram
  split
  · rename_i httl
    exact ⟨none, .inl httl, rfl, rfl⟩
  rename_i httl
  rcases longest_match_best r.routingTable dgram.header.dst with ⟨hnone, hall⟩ |
    ⟨entry, hsome, hbest⟩
  · rw [hnone]
    exact ⟨none, .inr hall, rfl, rfl⟩
  · rw [hsome]
    -- neither check of `serialize` looks at the TTL
    have hsend := send_on_eq (r := r)
      { dgram with header := { dgram.header with ttl := dgram.header.ttl - 1 } } h
      (hr entry hbest.mem) (entry.nextHop.getD ⟨dgram.header.dst⟩)
    refine ⟨some _, ⟨UInt8.not_le.mp httl, entry, hbest, rfl⟩, ?_, ?_⟩
    · simp only [hsend]
      rfl
    · simp only [hsend]
      rfl

end Sending

section Queues

variable {r : Router}

/-- The queue of an interface. -/
def queueAt (r : Router) (i : Nat) : List InternetDatagram :=
  (r.interfaces[i]?.map (·.datagramsOut)).getD []

theorem modify_comm {α : Type} {f g : α → α} (h : ∀ a, f (g a) = g (f a)) (l : List α)
    (i j : Nat) : (l.modify i g).modify j f = (l.modify j f).modify i g := by
  apply List.ext_getElem?
  intro k
  simp only [List.getElem?_modify]
  cases l[k]? with
  | none => rfl
  | some a =>
    by_cases hi : i = k <;> by_cases hj : j = k <;> simp [hi, hj, h]

/-- A call does not look at the queues. -/
theorem perform_set_queue (r : Router) (call : Option SendCall) (i : Nat)
    (queue : List InternetDatagram) :
    (r.setQueue i queue).perform call = (r.perform call).setQueue i queue := by
  cases call with
  | none => rfl
  | some call =>
    have hcomm := modify_comm (l := r.interfaces) (i := i) (j := call.interfaceNum)
      (f := fun a => { a with
        toNetworkInterface := (a.toNetworkInterface.sendDatagram call.dgram call.nextHop).state })
      (g := fun a => { a with datagramsOut := queue }) (fun _ => rfl)
    simp only [perform, setQueue, hcomm]

theorem perform_queue (r : Router) (call : Option SendCall) (i : Nat) :
    (r.perform call).queueAt i = r.queueAt i := by
  cases call with
  | none => rfl
  | some call =>
    cases hi : r.interfaces[i]? with
    | none => simp [perform, queueAt, hi, List.getElem?_modify]
    | some a =>
      by_cases hcall : call.interfaceNum = i <;> simp [perform, queueAt, hi, hcall]

theorem set_queue_other (r : Router) {i j : Nat} (h : i ≠ j) (queue : List InternetDatagram) :
    (r.setQueue i queue).queueAt j = r.queueAt j := by
  simp [setQueue, queueAt, h]

theorem set_queue_same (r : Router) {i : Nat} (h : r.queueAt i ≠ [])
    (queue : List InternetDatagram) : (r.setQueue i queue).queueAt i = queue := by
  cases hi : r.interfaces[i]? with
  | none => simp [queueAt, hi] at h
  | some a => simp [setQueue, queueAt, hi]

theorem set_queue_again (r : Router) (i : Nat) (queue queue' : List InternetDatagram) :
    (r.setQueue i queue).setQueue i queue' = r.setQueue i queue' := by
  simp only [setQueue, List.modify_modify_eq]
  rfl

/-- An empty queue may be emptied. -/
theorem set_queue_nil {i : Nat} (h : r.queueAt i = []) : r.setQueue i [] = r := by
  have hsame : r.interfaces.modify i (fun a => { a with datagramsOut := [] }) = r.interfaces := by
    apply List.ext_getElem?
    intro k
    rw [List.getElem?_modify]
    cases hk : r.interfaces[k]? with
    | none => rfl
    | some a =>
      by_cases hik : i = k
      · subst hik
        have hq : a.datagramsOut = [] := by simpa [queueAt, hk] using h
        simp [← hq]
      · simp [hik]
  rw [setQueue, hsame]

theorem RoutesWell.perform (h : r.RoutesWell) (call : Option SendCall) :
    (r.perform call).RoutesWell := by
  cases call with
  | none => exact h
  | some call => simpa [RoutesWell, Router.perform] using h

theorem RoutesWell.set_queue (h : r.RoutesWell) (i : Nat) (queue : List InternetDatagram) :
    (r.setQueue i queue).RoutesWell := by
  simpa [RoutesWell, setQueue] using h

theorem perform_table (r : Router) (call : Option SendCall) :
    (r.perform call).routingTable = r.routingTable := by
  cases call <;> rfl

/-- All calls that come from one queue; they may as well be made when it is empty. -/
theorem route_queue_eq {i : Nat} {queue : List InternetDatagram} (hr : r.RoutesWell)
    (hq : r.queueAt i = queue) (h : ∀ d ∈ queue, d.Serializable) :
    ∃ calls, List.Forall₂ (Decides r.routingTable) queue calls ∧
      routeQueue i queue r = .done (calls.foldl perform (r.setQueue i [])) () := by
  induction queue generalizing r with
  | nil => exact ⟨[], .nil, by rw [set_queue_nil hq]; rfl⟩
  | cons dgram queue ih =>
    obtain ⟨call, hcall, hok, hstate⟩ := route_one_decides hr (h dgram List.mem_cons_self)
    have hnext : ((r.perform call).setQueue i queue).queueAt i = queue :=
      set_queue_same _ (by rw [perform_queue, hq]; simp) queue
    obtain ⟨calls, hcalls, hrest⟩ := ih ((hr.perform call).set_queue i queue) hnext
      (fun d hd => h d (List.mem_cons_of_mem _ hd))
    have htable : ((r.perform call).setQueue i queue).routingTable = r.routingTable :=
      r.perform_table call
    rw [htable] at hcalls
    refine ⟨call :: calls, .cons hcall hcalls, ?_⟩
    rw [routeQueue]
    simp only [hok, hstate]
    rw [hrest, set_queue_again, ← perform_set_queue, List.foldl_cons]

theorem foldl_perform_set_queue (r : Router) (calls : List (Option SendCall)) (i : Nat)
    (queue : List InternetDatagram) :
    calls.foldl perform (r.setQueue i queue) = (calls.foldl perform r).setQueue i queue := by
  induction calls generalizing r with
  | nil => rfl
  | cons call calls ih => rw [List.foldl_cons, perform_set_queue, ih, List.foldl_cons]

theorem foldl_perform_keeps {β : Type} {f : Router → β}
    (hf : ∀ r call, f (perform r call) = f r) (r : Router) (calls : List (Option SendCall)) :
    f (calls.foldl perform r) = f r := by
  induction calls generalizing r with
  | nil => rfl
  | cons call calls ih => rw [List.foldl_cons, ih, hf]

theorem foldl_perform_queue (r : Router) (calls : List (Option SendCall)) (i : Nat) :
    (calls.foldl perform r).queueAt i = r.queueAt i :=
  foldl_perform_keeps (f := (queueAt · i)) (fun r call => r.perform_queue call i) r calls

theorem foldl_perform_table (r : Router) (calls : List (Option SendCall)) :
    (calls.foldl perform r).routingTable = r.routingTable :=
  foldl_perform_keeps perform_table r calls

theorem RoutesWell.foldl_perform (h : r.RoutesWell) (calls : List (Option SendCall)) :
    (calls.foldl Router.perform r).RoutesWell := by
  induction calls generalizing r with
  | nil => exact h
  | cons call calls ih => exact ih (h.perform call)

/-- The queues of some of the interfaces emptied, one after the other. -/
def clear (r : Router) (is : List Nat) : Router := is.foldl (fun r i => r.setQueue i []) r

theorem foldl_perform_clear (r : Router) (calls : List (Option SendCall)) (is : List Nat) :
    (calls.foldl perform r).clear is = calls.foldl perform (r.clear is) := by
  induction is generalizing r with
  | nil => rfl
  | cons i is ih =>
    rw [clear, List.foldl_cons, ← foldl_perform_set_queue]
    exact ih (r.setQueue i [])

theorem route_from_eq {is : List Nat} (hr : r.RoutesWell) (his : is.Nodup)
    (h : ∀ i ∈ is, ∀ d ∈ r.queueAt i, d.Serializable) :
    ∃ calls, List.Forall₂ (Decides r.routingTable) (is.flatMap r.queueAt) calls ∧
      routeFrom is r = .done (calls.foldl perform (r.clear is)) () := by
  induction is generalizing r with
  | nil => exact ⟨[], .nil, rfl⟩
  | cons i is ih =>
    obtain ⟨hi, his⟩ := List.nodup_cons.mp his
    obtain ⟨calls, hcalls, hroute⟩ := route_queue_eq hr rfl (h i List.mem_cons_self)
    -- the other queues are as they were
    have hsame : ∀ j ∈ is, (calls.foldl perform (r.setQueue i [])).queueAt j = r.queueAt j := by
      intro j hj
      have hne : i ≠ j := fun heq => hi (heq ▸ hj)
      rw [foldl_perform_queue, set_queue_other _ hne]
    have hqueues : is.flatMap (calls.foldl perform (r.setQueue i [])).queueAt =
        is.flatMap r.queueAt := List.flatMap_congr hsame
    obtain ⟨rest, hrest, hroutes⟩ := ih ((hr.set_queue i []).foldl_perform calls) his
      (fun j hj d hd => h j (List.mem_cons_of_mem _ hj) d (hsame j hj ▸ hd))
    rw [hqueues, foldl_perform_table] at hrest
    refine ⟨calls ++ rest, ?_, ?_⟩
    · rw [List.flatMap_cons]
      exact List.rel_append hcalls hrest
    · have hstart : routeFrom (i :: is) r =
          routeFrom is (calls.foldl perform (r.setQueue i [])) := by
        rw [routeFrom, ← queueAt, hroute]
        rfl
      rw [hstart, hroutes, foldl_perform_clear, List.foldl_append]
      rfl

theorem emptied_queue (r : Router) (i : Nat) : r.emptied.queueAt i = [] := by
  cases hi : r.interfaces[i]? with
  | none => simp [emptied, queueAt, hi]
  | some a => simp [emptied, queueAt, hi]

theorem clear_range_eq (r : Router) (n : Nat) : r.clear (List.range n) =
    { r with
      interfaces := r.interfaces.mapIdx fun k a =>
        if k < n then { a with datagramsOut := [] } else a } := by
  induction n with
  | zero =>
    have hid : r.interfaces.mapIdx (fun _ a => a) = r.interfaces := by
      apply List.ext_getElem <;> simp
    simp [clear, hid]
  | succ n ih =>
    have hlast : r.clear (List.range (n + 1)) = (r.clear (List.range n)).setQueue n [] := by
      simp [clear, List.range_succ]
    rw [hlast, ih, setQueue]
    congr 1
    apply List.ext_getElem?
    intro k
    rw [List.getElem?_modify, List.getElem?_mapIdx, List.getElem?_mapIdx]
    cases r.interfaces[k]? with
    | none => rfl
    | some a =>
      rcases Nat.lt_trichotomy k n with hlt | rfl | hgt
      · simp [hlt, Nat.ne_of_gt hlt, Nat.lt_succ_of_lt hlt]
      · simp
      · simp [Nat.ne_of_lt hgt, Nat.not_lt.mpr (Nat.le_of_lt hgt), Nat.not_lt.mpr hgt]

theorem clear_range (r : Router) : r.clear (List.range r.interfaces.length) = r.emptied := by
  rw [clear_range_eq, emptied]
  congr 1
  apply List.ext_getElem (by simp)
  intro k hk _
  rw [List.length_mapIdx] at hk
  simp [hk]

theorem range_queues (r : Router) :
    (List.range r.interfaces.length).flatMap r.queueAt = r.queued := by
  have hmap : (List.range r.interfaces.length).map r.queueAt =
      r.interfaces.map (·.datagramsOut) := by
    apply List.ext_getElem (by simp)
    intro i hi _
    simp at hi
    simp [queueAt, hi]
  rw [queued, List.flatMap_def, List.flatMap_def, hmap]

end Queues

/-- The datagrams of all queues are routed in turn, each along the best route, and the queues
are empty then. Besides the calls of `send_datagram` nothing is done to an interface. -/
theorem routes_longest_match (r : Router) (hr : r.RoutesWell) (hq : r.QueuesWell) :
    ∃ calls, List.Forall₂ (Decides r.routingTable) r.queued calls ∧
      r.route = .done (calls.foldl perform r.emptied) () ∧
        ∀ a ∈ r.route.state.interfaces, a.datagramsOut = [] := by
  have hqueues : ∀ i ∈ List.range r.interfaces.length, ∀ d ∈ r.queueAt i, d.Serializable := by
    intro i hi d hd
    have hget := List.getElem?_eq_getElem (List.mem_range.mp hi)
    rw [queueAt, hget] at hd
    exact hq _ (List.getElem_mem _) d hd
  obtain ⟨calls, hcalls, hroute⟩ := route_from_eq hr List.nodup_range hqueues
  rw [range_queues] at hcalls
  rw [clear_range, ← route] at hroute
  refine ⟨calls, hcalls, hroute, fun a ha => ?_⟩
  rw [hroute] at ha
  obtain ⟨i, hi⟩ := List.mem_iff_getElem?.mp ha
  have hnil := foldl_perform_queue r.emptied calls i
  rw [Outcome.state_done] at hi
  rw [emptied_queue, queueAt, hi] at hnil
  exact hnil

/-- A router with a default route and one to a host, whose prefix is longer than an address;
two datagrams are to be routed, the second of which has no hop left. -/
def twoArmed : Router :=
  ((((({} : Router).addInterface
    { AsyncNetworkInterface.new (.replicate 6 1) ⟨1⟩ with
      datagramsOut := [{ header := { len := 20, dst := 7 } }, { header := { len := 20, ttl := 1 } }]
      }).addInterface (.new (.replicate 6 2) ⟨2⟩)).addRoute 0 0 (some ⟨9⟩) 0).addRoute 7 200 none 1)

theorem routes_longest_match_two_armed : twoArmed.RoutesWell ∧ twoArmed.QueuesWell ∧
    ∃ calls, List.Forall₂ (Decides twoArmed.routingTable) twoArmed.queued calls ∧
      twoArmed.route = .done (calls.foldl perform twoArmed.emptied) () ∧
        ∀ a ∈ twoArmed.route.state.interfaces, a.datagramsOut = [] := by
  have hr : twoArmed.RoutesWell := by
    simp [RoutesWell, twoArmed, addRoute, addInterface]
  have hd : IPv4Datagram.Serializable { header := { len := 20, dst := 7 } } ∧
      IPv4Datagram.Serializable { header := { len := 20, ttl := 1 } } := by
    decide
  have hq : twoArmed.QueuesWell := by
    simp [QueuesWell, twoArmed, addRoute, addInterface, AsyncNetworkInterface.new, hd]
  exact ⟨hr, hq, routes_longest_match twoArmed hr hq⟩

end Router

end Sponge
