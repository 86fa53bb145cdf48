import Mathlib.Tactic.IntervalCases
import RustDns.Config.Addr

/-! The text of an IP address as the standard library writes it, and that its
readers read this text back. -/
namespace RustDns

inductive IpAddr where
  | v4 (ip : Ipv4Addr)
  | v6 (ip : Ipv6Addr)
  deriving DecidableEq

def decimal (n : Nat) : Str := Nat.toDigits 10 n

def lowerHex (n : Nat) : Str := Nat.toDigits 16 n

def Ipv4Addr.toString (ip : Ipv4Addr) : Str :=
  decimal (ip.octets.get 0).toNat ++ '.' :: (decimal (ip.octets.get 1).toNat ++
    '.' :: (decimal (ip.octets.get 2).toNat ++ '.' :: decimal (ip.octets.get 3).toNat))

namespace Ipv6Addr

/-- A run of zero segments. -/
structure Span where
  start : Nat
  len : Nat
  deriving DecidableEq

def Span.default : Span := ⟨0, 0⟩

/-- One round of the search: the longest run so far and the run that ends
here. -/
def Span.visit (spans : Span × Span) (visited : UInt16 × Nat) : Span × Span :=
  let (longest, current) := spans
  let (segment, i) := visited
  if segment = 0 then
    let current := Span.mk (if current.len = 0 then i else current.start) (current.len + 1)
    (if longest.len < current.len then current else longest, current)
  else (longest, Span.default)

/-- The first of the longest runs. -/
def zeroes (segments : List UInt16) : Span :=
  (segments.zipIdx.foldl Span.visit (Span.default, Span.default)).1

/-- The segments with a colon between any two. -/
def fmtSubslice : List UInt16 → Str
  | [] => []
  | first :: tail => lowerHex first.toNat ++ tail.flatMap fun segment => ':' :: lowerHex segment.toNat

def toIpv4Mapped (ip : Ipv6Addr) : Option Ipv4Addr :=
  match ip.segments.toList with
  | [0, 0, 0, 0, 0, 0xffff, ab, cd] =>
      some ⟨#v[UInt8.ofNat (ab.toNat / 256), UInt8.ofNat ab.toNat, UInt8.ofNat (cd.toNat / 256),
        UInt8.ofNat cd.toNat]⟩
  | _ => none

def toString (ip : Ipv6Addr) : Str :=
  match ip.toIpv4Mapped with
  | some ipv4 => "::ffff:".toList ++ ipv4.toString
  | none =>
      let segments := ip.segments.toList
      let span := zeroes segments
      if 1 < span.len then
        fmtSubslice (segments.take span.start) ++ "::".toList ++
          fmtSubslice (segments.drop (span.start + span.len))
      else fmtSubslice segments

end Ipv6Addr

def IpAddr.toString : IpAddr → Str
  | .v4 ip => ip.toString
  | .v6 ip => ip.toString

example : (Ipv6Addr.mk #v[0x2001, 0xdb8, 0, 0, 1, 0, 0, 1]).toString = "2001:db8::1:0:0:1".toList := by
  decide +kernel

/-! Numbers. -/

namespace Reader

/-- The text does not go on with a digit. -/
def Stops (radix : Nat) (s : Str) : Prop := ∀ c, s.head? = some c → toDigit radix c = none

theorem digits_append {radix : Nat} {s after : Str} {ds : List Nat}
    (hDigits : s.map (toDigit radix) = ds.map some) (hStops : Stops radix after) :
    digits radix (s ++ after) = (ds, after) := by
  induction s generalizing ds with
  | nil =>
      obtain rfl : ds = [] := by simpa using hDigits.symm
      cases after with
      | nil => rfl
      | cons c rest => simp [digits, hStops c rfl]
  | cons c rest ih =>
      cases ds with
      | nil => simp at hDigits
      | cons d ds =>
          obtain ⟨hHead, hTail⟩ := List.cons.inj hDigits
          simp [digits, hHead, ih hTail]

theorem toDigit_digitChar {radix d : Nat} (hDigit : d < radix) (hSmall : radix ≤ 16) :
    toDigit radix (Nat.digitChar d) = some d := by
  have hLt : d < 16 := by omega
  interval_cases d <;> simp [toDigit, Nat.digitChar, hDigit]

/-- The digits of a number: their value, and none of them is a leading zero. -/
theorem exists_digits {radix : Nat} (hBase : 1 < radix) (hSmall : radix ≤ 16) (n : Nat) :
    ∃ ds, (Nat.toDigits radix n).map (toDigit radix) = ds.map some ∧ ds ≠ [] ∧
      ds.foldl (fun acc d => acc * radix + d) 0 = n ∧ (ds.head? = some 0 → ds.length = 1) := by
  induction n using Nat.strongRecOn with
  | ind n ih =>
      by_cases hOne : n < radix
      · refine ⟨[n], ?_, by simp, by simp, fun _ => rfl⟩
        rw [Nat.toDigits_of_lt_base hOne]
        simp [toDigit_digitChar hOne hSmall]
      · have hLess : n / radix < n := Nat.div_lt_self (by omega) hBase
        have hPos : 0 < n / radix := Nat.div_pos (by omega) (by omega)
        have hLast : n % radix < radix := Nat.mod_lt _ (by omega)
        obtain ⟨ds, hDigits, hSome, hValue, hLeading⟩ := ih (n / radix) hLess
        refine ⟨ds ++ [n % radix], ?_, by simp, ?_, ?_⟩
        · rw [Nat.toDigits_of_base_le hBase (by omega), List.map_append, hDigits, List.map_append]
          simp [toDigit_digitChar hLast hSmall]
        · rw [List.foldl_append, hValue, List.foldl_cons, List.foldl_nil, Nat.mul_comm]
          exact Nat.div_add_mod n radix
        · intro hZero
          rw [List.head?_append_of_ne_nil _ hSome] at hZero
          -- a single zero in front would be the value of all that is in front
          obtain ⟨d, rfl⟩ := List.length_eq_one_iff.mp (hLeading hZero)
          obtain rfl : d = 0 := by simpa using hZero
          simp at hValue
          omega

theorem number_toDigits {radix bound n : Nat} {maxDigits : Option Nat} {allowZeroPrefix : Bool}
    {after : Str} (hBase : 1 < radix) (hSmall : radix ≤ 16) (hBound : n < bound)
    (hLength : ∀ k, maxDigits = some k → (Nat.toDigits radix n).length ≤ k)
    (hStops : Stops radix after) :
    number radix bound maxDigits allowZeroPrefix (Nat.toDigits radix n ++ after) =
      some (n, after) := by
  obtain ⟨ds, hDigits, hSome, hValue, hLeading⟩ := exists_digits hBase hSmall n
  have hSame : (Nat.toDigits radix n).length = ds.length := by
    have hLengths := congrArg List.length hDigits
    simpa using hLengths
  have hFits : maxDigits.any (· < ds.length) = false := by
    cases maxDigits with
    | none => rfl
    | some k =>
        have hLe := hLength k rfl
        simp
        omega
  simp only [number, digits_append hDigits hStops, hValue]
  rw [if_neg]
  rintro (hEmpty | hLong | ⟨-, hZero, hMore⟩ | hBig)
  · exact hSome hEmpty
  · rw [hFits] at hLong
    exact absurd hLong (by decide)
  · have hOne := hLeading hZero
    omega
  · omega

/-! IPv4 addresses. -/

theorem stops_of_ne {radix : Nat} {c : Char} {rest : Str} (hStop : toDigit radix c = none) :
    Stops radix (c :: rest) := by
  intro d hHead
  obtain rfl := Option.some.inj hHead
  exact hStop

theorem octet_zero (b : UInt8) {after : Str} (hStops : Stops 10 after) :
    octet 0 (decimal b.toNat ++ after) = some (b, after) := by
  have hBound := b.toNat_lt
  have hRead : number 10 256 (some 3) false (decimal b.toNat ++ after) = some (b.toNat, after) := by
    refine number_toDigits (by decide) (by decide) hBound (fun k hk => ?_) hStops
    obtain rfl := Option.some.inj hk
    exact (Nat.length_toDigits_le_iff (by decide) (by decide)).mpr (by omega)
  change (UInt8.ofNat <$> separator '.' 0 (number 10 256 (some 3) false)) _ = _
  simp [separator, StateT.map, hRead, Functor.map]

theorem octet_succ (b : UInt8) (i : Nat) {after : Str} (hStops : Stops 10 after) :
    octet (i + 1) ('.' :: (decimal b.toNat ++ after)) = some (b, after) := by
  have hFirst := octet_zero b hStops
  simpa [octet, separator, givenChar, bind, StateT.bind, StateT.map, Functor.map] using hFirst

theorem ipv4Addr_toString (ip : Ipv4Addr) {after : Str} (hStops : Stops 10 after) :
    ipv4Addr (ip.toString ++ after) = some (ip, after) := by
  have hDot : ∀ rest : Str, Stops 10 ('.' :: rest) := fun rest => stops_of_ne (by decide)
  have hOctets : #v[ip.octets.get 0, ip.octets.get 1, ip.octets.get 2, ip.octets.get 3] =
      ip.octets := by
    ext i hi
    interval_cases i <;> rfl
  simp only [ipv4Addr, Ipv4Addr.toString, List.append_assoc, List.cons_append, bind, StateT.bind,
    octet_zero _ (hDot _), octet_succ _ _ (hDot _), octet_succ _ _ hStops, Option.bind_some]
  exact congrArg (fun octets => some (Ipv4Addr.mk octets, after)) hOctets

/-- What an octet leaves is the rest of the text. -/
theorem digits_suffix (radix : Nat) (s : Str) : (digits radix s).2 <:+ s := by
  induction s with
  | nil => exact List.suffix_rfl
  | cons c rest ih =>
      simp only [digits]
      split
      · exact List.suffix_rfl
      · exact ih.trans (List.suffix_cons c rest)

theorem number_suffix {radix bound n : Nat} {maxDigits : Option Nat} {allowZeroPrefix : Bool}
    {s rest : Str} (hRead : number radix bound maxDigits allowZeroPrefix s = some (n, rest)) :
    rest <:+ s := by
  simp only [number] at hRead
  split at hRead
  · simp at hRead
  · obtain ⟨-, rfl⟩ := Prod.mk.inj (Option.some.inj hRead)
    exact digits_suffix radix s

/-- Without a dot there is no IPv4 address. -/
theorem ipv4Addr_of_no_dot {s : Str} (hNoDot : '.' ∉ s) : ipv4Addr s = none := by
  cases hFirst : octet 0 s with
  | none => simp [ipv4Addr, bind, StateT.bind, hFirst]
  | some read =>
      obtain ⟨a, rest⟩ := read
      have hSuffix : rest <:+ s := by
        cases hNumber : number 10 256 (some 3) false s with
        | none => simp [octet, separator, Functor.map, StateT.map, hNumber] at hFirst
        | some pair =>
            simp [octet, separator, Functor.map, StateT.map, hNumber] at hFirst
            obtain ⟨-, rfl⟩ := hFirst
            exact number_suffix hNumber
      have hSecond : octet 1 rest = none := by
        cases rest with
        | nil => rfl
        | cons c rest =>
            have hNe : c ≠ '.' := by
              rintro rfl
              exact hNoDot (hSuffix.subset List.mem_cons_self)
            simp [octet, separator, givenChar, Functor.map, StateT.map, bind, StateT.bind, hNe]
      simp [ipv4Addr, bind, StateT.bind, hFirst, hSecond]

end Reader

theorem Ipv4Addr.parse_toString (ip : Ipv4Addr) : Ipv4Addr.parse ip.toString = some ip := by
  have hRead : Reader.ipv4Addr (ip.toString ++ []) = some (ip, []) :=
    Reader.ipv4Addr_toString ip (by simp [Reader.Stops])
  rw [List.append_nil] at hRead
  simp [Ipv4Addr.parse, Reader.parseWith, hRead]

/-! The run of zeros of an IPv6 address. -/

namespace Ipv6Addr

/-- The run lies in the segments and is all zeros. -/
structure Span.Within (segments : List UInt16) (span : Span) : Prop where
  bound : span.start + span.len ≤ segments.length
  zero : ∀ i, span.start ≤ i → i < span.start + span.len → segments[i]? = some 0

theorem Span.Within.append {segments : List UInt16} {span : Span}
    (hWithin : span.Within segments) (segment : UInt16) : span.Within (segments ++ [segment]) where
  bound := by
    have hBound := hWithin.bound
    simp only [List.length_append, List.length_singleton]
    omega
  zero := fun i hFrom hTo => by
    have hBound := hWithin.bound
    rw [List.getElem?_append_left (by omega)]
    exact hWithin.zero i hFrom hTo

/-- After every round both runs are runs, and the current one ends at the
segment visited last. -/
theorem within_visited (segments : List UInt16) :
    let spans := segments.zipIdx.foldl Span.visit (Span.default, Span.default)
    spans.1.Within segments ∧ spans.2.Within segments ∧
      (spans.2.len ≠ 0 → spans.2.start + spans.2.len = segments.length) := by
  induction segments using List.reverseRecOn with
  | nil =>
      have hNone : Span.default.Within [] := ⟨Nat.le_refl _, fun i hFrom hTo => absurd hTo (by
        simp only [Span.default]
        omega)⟩
      exact ⟨hNone, hNone, fun hLen => absurd rfl hLen⟩
  | append_singleton done segment ih =>
      obtain ⟨hLongest, hCurrent, hEnds⟩ := ih
      simp only [List.zipIdx_append, List.zipIdx_singleton, Nat.zero_add, List.foldl_append,
        List.foldl_cons, List.foldl_nil]
      generalize done.zipIdx.foldl Span.visit (Span.default, Span.default) = spans at *
      obtain ⟨longest, current⟩ := spans
      dsimp only at hLongest hCurrent hEnds
      by_cases hZero : segment = 0
      · subst hZero
        have hGrown : (Span.mk (if current.len = 0 then done.length else current.start)
            (current.len + 1)).Within (done ++ [0]) ∧
            (if current.len = 0 then done.length else current.start) + (current.len + 1) =
              done.length + 1 := by
          by_cases hFresh : current.len = 0
          · rw [if_pos hFresh, hFresh]
            refine ⟨⟨by simp, fun i hFrom hTo => ?_⟩, rfl⟩
            obtain rfl : i = done.length := by
              dsimp only at hFrom hTo
              omega
            simp
          · rw [if_neg hFresh]
            have hLast := hEnds hFresh
            refine ⟨⟨by simp; omega, fun i hFrom hTo => ?_⟩, by omega⟩
            dsimp only at hFrom hTo
            by_cases hOld : i < done.length
            · rw [List.getElem?_append_left hOld]
              exact hCurrent.zero i hFrom (by omega)
            · obtain rfl : i = done.length := by omega
              simp
        obtain ⟨hWithin, hLast⟩ := hGrown
        simp only [Span.visit, if_true]
        refine ⟨?_, hWithin, fun _ => by simpa using hLast⟩
        split
        · exact hWithin
        · exact hLongest.append 0
      · simp only [Span.visit, if_neg hZero]
        exact ⟨hLongest.append segment, ⟨by simp [Span.default], fun i hFrom hTo => absurd hTo (by
          simp only [Span.default]
          omega)⟩, fun hLen => absurd rfl hLen⟩

theorem zeroes_within (segments : List UInt16) : (zeroes segments).Within segments :=
  (within_visited segments).1

/-- The segments around a run of zeros. -/
theorem Span.Within.split {segments : List UInt16} {span : Span} (hWithin : span.Within segments) :
    segments.take span.start ++ List.replicate span.len 0 ++
      segments.drop (span.start + span.len) = segments := by
  have hBound := hWithin.bound
  have hRun : (segments.drop span.start).take span.len = List.replicate span.len 0 := by
    refine List.eq_replicate_iff.mpr ⟨by simp; omega, fun b hMem => ?_⟩
    obtain ⟨i, hi⟩ := List.mem_iff_getElem?.mp hMem
    rw [List.getElem?_take] at hi
    split at hi
    · rw [List.getElem?_drop, hWithin.zero _ (by omega) (by omega)] at hi
      exact (Option.some.inj hi).symm
    · simp at hi
  rw [← hRun, List.append_assoc, ← List.drop_drop, List.take_append_drop, List.take_append_drop]

end Ipv6Addr

/-! IPv6 addresses. -/

namespace Reader

/-- The groups are over: the text ends, or a double colon follows. -/
def Closes (s : Str) : Prop := s = [] ∨ ∃ rest, s = ':' :: ':' :: rest

theorem Closes.stops {s : Str} (hCloses : Closes s) : Stops 16 s := by
  rcases hCloses with rfl | ⟨rest, rfl⟩
  · simp [Stops]
  · exact stops_of_ne (by decide)

theorem number_of_stops {radix bound : Nat} {maxDigits : Option Nat} {allowZeroPrefix : Bool}
    {s : Str} (hStops : Stops radix s) : number radix bound maxDigits allowZeroPrefix s = none := by
  have hNone : digits radix ([] ++ s) = ([], s) := digits_append rfl hStops
  rw [List.nil_append] at hNone
  simp [number, hNone]

/-- The colon and the number of a group. -/
def group (index : Nat) : Reader Nat := separator ':' index (number 16 65536 (some 4) true)

theorem group_of_closes {s : Str} (hCloses : Closes s) (index : Nat) : group index s = none := by
  cases index with
  | zero => simpa [group, separator] using number_of_stops hCloses.stops
  | succ index =>
      rcases hCloses with rfl | ⟨rest, rfl⟩
      · simp [group, separator, givenChar, bind, StateT.bind]
      · have hNone : number 16 65536 (some 4) true (':' :: rest) = none :=
          number_of_stops (stops_of_ne (by decide))
        simpa [group, separator, givenChar, bind, StateT.bind] using hNone

theorem group_zero (g : UInt16) {after : Str} (hStops : Stops 16 after) :
    group 0 (lowerHex g.toNat ++ after) = some (g.toNat, after) := by
  have hBound := g.toNat_lt
  have hRead : number 16 65536 (some 4) true (lowerHex g.toNat ++ after) =
      some (g.toNat, after) := by
    refine number_toDigits (by decide) (by decide) hBound (fun k hk => ?_) hStops
    obtain rfl := Option.some.inj hk
    exact (Nat.length_toDigits_le_iff (by decide) (by decide)).mpr (by omega)
  simpa [group, separator] using hRead

theorem group_succ (g : UInt16) (i : Nat) {after : Str} (hStops : Stops 16 after) :
    group (i + 1) (':' :: (lowerHex g.toNat ++ after)) = some (g.toNat, after) := by
  have hFirst := group_zero g hStops
  simpa [group, separator, givenChar, bind, StateT.bind] using hFirst

/-- A round of `read_groups` that reads a group, and the one that ends it. -/
theorem groups_read {limit index left : Nat} {s rest : Str} {g : UInt16}
    (hNoIpv4 : (separator ':' index ipv4Addr).run s = none)
    (hRead : group index s = some (g.toNat, rest)) :
    groups limit index (left + 1) s =
      (g :: (groups limit (index + 1) left rest).1, (groups limit (index + 1) left rest).2) := by
  have hRun : (separator ':' index (number 16 65536 (some 4) true)).run s =
      some (g.toNat, rest) := hRead
  simp [groups, hNoIpv4, hRun]

theorem groups_end {limit index left : Nat} {s : Str}
    (hNoIpv4 : (separator ':' index ipv4Addr).run s = none) (hRead : group index s = none) :
    groups limit index left s = ([], false, s) := by
  have hRun : (separator ':' index (number 16 65536 (some 4) true)).run s = none := hRead
  cases left with
  | zero => rfl
  | succ left => simp [groups, hNoIpv4, hRun]

theorem no_ipv4_of_no_dot {s : Str} (hNoDot : '.' ∉ s) (index : Nat) :
    (separator ':' index ipv4Addr).run s = none := by
  cases index with
  | zero => simpa [separator, StateT.run] using ipv4Addr_of_no_dot hNoDot
  | succ index =>
      cases s with
      | nil => simp [separator, givenChar, bind, StateT.bind, StateT.run]
      | cons c rest =>
          have hRest := ipv4Addr_of_no_dot (List.not_mem_of_not_mem_cons hNoDot)
          by_cases hColon : c = ':'
          · simp [separator, givenChar, bind, StateT.bind, StateT.run, hColon, hRest]
          · simp [separator, givenChar, bind, StateT.bind, StateT.run, hColon]

theorem dot_not_mem_lowerHex (n : Nat) : '.' ∉ lowerHex n := by
  intro hMem
  obtain ⟨ds, hDigits, -⟩ := exists_digits (by decide : 1 < 16) (by decide) n
  have hDot : toDigit 16 '.' ∈ ds.map some := by
    rw [← hDigits]
    exact List.mem_map_of_mem hMem
  have hNone : toDigit 16 '.' = none := by decide
  rw [hNone] at hDot
  simp at hDot

theorem dot_not_mem_tail (gs : List UInt16) :
    '.' ∉ gs.flatMap fun segment => ':' :: lowerHex segment.toNat := by
  intro hMem
  obtain ⟨g, -, hGroup⟩ := List.mem_flatMap.mp hMem
  rcases List.mem_cons.mp hGroup with hColon | hHex
  · exact absurd hColon (by decide)
  · exact dot_not_mem_lowerHex g.toNat hHex

/-- Groups that follow others. -/
theorem groups_tail {limit index left : Nat} {gs : List UInt16} {after : Str}
    (hRoom : gs.length ≤ left) (hCloses : Closes after) (hNoDot : '.' ∉ after) :
    groups limit (index + 1) left
      ((gs.flatMap fun segment => ':' :: lowerHex segment.toNat) ++ after) = (gs, false, after) := by
  induction gs generalizing index left with
  | nil => exact groups_end (no_ipv4_of_no_dot hNoDot _) (group_of_closes hCloses _)
  | cons g rest ih =>
      cases left with
      | zero => simp at hRoom
      | succ left =>
          have hWhole : '.' ∉ ((g :: rest).flatMap fun segment => ':' :: lowerHex segment.toNat) ++
              after := by
            rw [List.mem_append]
            exact fun hMem => hMem.elim (dot_not_mem_tail _) hNoDot
          have hStops : Stops 16 ((rest.flatMap fun segment => ':' :: lowerHex segment.toNat) ++
              after) := by
            cases rest with
            | nil => exact hCloses.stops
            | cons g' rest => exact stops_of_ne (by decide)
          have hRead := group_succ g index hStops
          rw [List.flatMap_cons, List.cons_append, List.cons_append, List.append_assoc] at *
          rw [groups_read (no_ipv4_of_no_dot hWhole _) hRead, ih (by simpa using hRoom)]

theorem dot_not_mem_fmtSubslice (gs : List UInt16) : '.' ∉ Ipv6Addr.fmtSubslice gs := by
  cases gs with
  | nil => simp [Ipv6Addr.fmtSubslice]
  | cons g rest =>
      rw [Ipv6Addr.fmtSubslice, List.mem_append]
      exact fun hMem => hMem.elim (dot_not_mem_lowerHex _) (dot_not_mem_tail _)

theorem groups_fmtSubslice {limit left : Nat} {gs : List UInt16} {after : Str}
    (hRoom : gs.length ≤ left) (hCloses : Closes after) (hNoDot : '.' ∉ after) :
    groups limit 0 left (Ipv6Addr.fmtSubslice gs ++ after) = (gs, false, after) := by
  cases gs with
  | nil => exact groups_end (no_ipv4_of_no_dot hNoDot _) (group_of_closes hCloses _)
  | cons g rest =>
      cases left with
      | zero => simp at hRoom
      | succ left =>
          have hWhole : '.' ∉ Ipv6Addr.fmtSubslice (g :: rest) ++ after := by
            rw [List.mem_append]
            exact fun hMem => hMem.elim (dot_not_mem_fmtSubslice _) hNoDot
          have hStops : Stops 16 ((rest.flatMap fun segment => ':' :: lowerHex segment.toNat) ++
              after) := by
            cases rest with
            | nil => exact hCloses.stops
            | cons g' rest => exact stops_of_ne (by decide)
          have hRead := group_zero g hStops
          rw [← List.append_assoc] at hRead
          rw [groups_read (no_ipv4_of_no_dot hWhole 0) hRead,
            groups_tail (by simpa using hRoom) hCloses hNoDot]

theorem segments_eq {ip : Ipv6Addr} {head tail : List UInt16}
    (hAll : head ++ List.replicate (8 - head.length - tail.length) 0 ++ tail = ip.segments.toList) :
    segments head tail = ip.segments := by
  apply Vector.ext
  intro i hi
  simp only [segments, hAll, Vector.getElem_ofFn]
  rw [List.getD_eq_getElem?_getD, Vector.getElem?_toList, Vector.getElem?_eq_getElem hi,
    Option.getD_some]

theorem ipv4Addr_of_stops {s : Str} (hStops : Stops 10 s) : ipv4Addr s = none := by
  have hNone : number 10 256 (some 3) false s = none := number_of_stops hStops
  simp [ipv4Addr, octet, separator, bind, StateT.bind, Functor.map, StateT.map, hNone]

/-- A double colon in front: no segments before it. -/
theorem groups_of_colon (limit left : Nat) (rest : Str) :
    groups limit 0 left (':' :: rest) = ([], false, ':' :: rest) := by
  have hOctet : ipv4Addr (':' :: rest) = none := ipv4Addr_of_stops (stops_of_ne (by decide))
  have hNone : number 16 65536 (some 4) true (':' :: rest) = none :=
    number_of_stops (stops_of_ne (by decide))
  refine groups_end ?_ ?_
  · simpa [separator, StateT.run] using hOctet
  · simpa [group, separator] using hNone

theorem pair_bytes (g : UInt16) : pair (UInt8.ofNat (g.toNat / 256)) (UInt8.ofNat g.toNat) = g := by
  have hBound := g.toNat_lt
  apply UInt16.toNat_inj.mp
  simp only [pair, UInt8.toNat_ofNat', UInt16.toNat_ofNat']
  omega

/-- An embedded IPv4 address behind one group. -/
theorem groups_mapped (ipv4 : Ipv4Addr) :
    groups 7 0 7 (lowerHex (0xffff : UInt16).toNat ++ ':' :: ipv4.toString) =
      ([0xffff, pair (ipv4.octets.get 0) (ipv4.octets.get 1),
        pair (ipv4.octets.get 2) (ipv4.octets.get 3)], true, []) := by
  have hStops : Stops 10 (lowerHex (0xffff : UInt16).toNat ++ ':' :: ipv4.toString) := by
    have hHex : lowerHex (0xffff : UInt16).toNat = "ffff".toList := by decide +kernel
    rw [hHex]
    exact stops_of_ne (by decide)
  have hNoIpv4 : (separator ':' 0 ipv4Addr).run
      (lowerHex (0xffff : UInt16).toNat ++ ':' :: ipv4.toString) = none := by
    simpa [separator, StateT.run] using ipv4Addr_of_stops hStops
  have hRead : group 0 (lowerHex (0xffff : UInt16).toNat ++ ':' :: ipv4.toString) =
      some ((0xffff : UInt16).toNat, ':' :: ipv4.toString) :=
    group_zero 0xffff (stops_of_ne (by decide))
  have hIpv4 : ipv4Addr (ipv4.toString ++ []) = some (ipv4, []) :=
    ipv4Addr_toString ipv4 (by simp [Stops])
  have hEmbedded : (separator ':' 1 ipv4Addr).run (':' :: ipv4.toString) = some (ipv4, []) := by
    rw [List.append_nil] at hIpv4
    simp [separator, givenChar, bind, StateT.bind, StateT.run, hIpv4]
  have hLast : groups 7 1 6 (':' :: ipv4.toString) = ([pair (ipv4.octets.get 0) (ipv4.octets.get 1),
      pair (ipv4.octets.get 2) (ipv4.octets.get 3)], true, []) := by
    simp only [groups, Nat.reduceAdd, Nat.reduceLT, if_true, hEmbedded]
    rfl
  rw [groups_read hNoIpv4 hRead, hLast]

/-- The text has a double colon with the groups of the tail behind it. -/
theorem ipv6Addr_of_groups {s rest : Str} {head tail : List UInt16} {flag : Bool}
    (hHead : groups 8 0 8 s = (head, false, ':' :: ':' :: rest)) (hShort : head.length ≠ 8)
    (hTail : groups (8 - (head.length + 1)) 0 (8 - (head.length + 1)) rest = (tail, flag, [])) :
    ipv6Addr s = some (⟨segments head tail⟩, []) := by
  simp only [Nat.reduceSubDiff] at hTail
  simp [ipv6Addr, hHead, hShort, givenChar, hTail]

end Reader

namespace Ipv6Addr

theorem segments_of_mapped {ip : Ipv6Addr} {ipv4 : Ipv4Addr} (hMapped : ip.toIpv4Mapped = some ipv4) :
    ip.segments.toList = [0, 0, 0, 0, 0, 0xffff, Reader.pair (ipv4.octets.get 0) (ipv4.octets.get 1),
      Reader.pair (ipv4.octets.get 2) (ipv4.octets.get 3)] := by
  unfold toIpv4Mapped at hMapped
  split at hMapped
  · rename_i ab cd hSegments
    obtain rfl := Option.some.inj hMapped
    have hHigh := Reader.pair_bytes ab
    have hLow := Reader.pair_bytes cd
    rw [hSegments]
    exact congrArg₂ (fun a c => [0, 0, 0, 0, 0, 0xffff, a, c]) hHigh.symm hLow.symm
  · simp at hMapped

theorem parse_mapped {ip : Ipv6Addr} {ipv4 : Ipv4Addr} (hMapped : ip.toIpv4Mapped = some ipv4) :
    Ipv6Addr.parse ("::ffff:".toList ++ ipv4.toString) = some ip := by
  have hText : "::ffff:".toList ++ ipv4.toString =
      ':' :: ':' :: (lowerHex (0xffff : UInt16).toNat ++ ':' :: ipv4.toString) := by
    have hHex : lowerHex (0xffff : UInt16).toNat = "ffff".toList := by decide +kernel
    rw [hHex]
    rfl
  have hSegments : Reader.segments [] [0xffff, Reader.pair (ipv4.octets.get 0) (ipv4.octets.get 1),
      Reader.pair (ipv4.octets.get 2) (ipv4.octets.get 3)] = ip.segments :=
    Reader.segments_eq (by rw [segments_of_mapped hMapped]; rfl)
  have hRead := Reader.ipv6Addr_of_groups (Reader.groups_of_colon 8 8 _) (by decide)
    (Reader.groups_mapped ipv4)
  rw [Ipv6Addr.parse, Reader.parseWith, hText, hRead, hSegments]

/-- The eight segments one after the other. -/
theorem parse_full (ip : Ipv6Addr) : Ipv6Addr.parse (fmtSubslice ip.segments.toList) = some ip := by
  have hGroups : Reader.groups 8 0 8 (fmtSubslice ip.segments.toList ++ []) =
      (ip.segments.toList, false, []) :=
    Reader.groups_fmtSubslice (by simp) (Or.inl rfl) (by simp)
  have hSegments : Reader.segments ip.segments.toList [] = ip.segments :=
    Reader.segments_eq (by simp)
  rw [List.append_nil] at hGroups
  simp [Ipv6Addr.parse, Reader.parseWith, Reader.ipv6Addr, hGroups, hSegments]

/-- A run of zeros left out. -/
theorem parse_shortened {ip : Ipv6Addr} {span : Span} (hWithin : span.Within ip.segments.toList)
    (hLong : 1 < span.len) :
    Ipv6Addr.parse (fmtSubslice (ip.segments.toList.take span.start) ++ "::".toList ++
      fmtSubslice (ip.segments.toList.drop (span.start + span.len))) = some ip := by
  have hBound : span.start + span.len ≤ 8 := by
    have hBound := hWithin.bound
    simpa using hBound
  have hHeadLength : (ip.segments.toList.take span.start).length = span.start := by
    rw [List.length_take, Vector.length_toList]
    omega
  have hTailLength : (ip.segments.toList.drop (span.start + span.len)).length =
      8 - (span.start + span.len) := by
    rw [List.length_drop, Vector.length_toList]
  have hHead : Reader.groups 8 0 8 (fmtSubslice (ip.segments.toList.take span.start) ++
      ':' :: ':' :: fmtSubslice (ip.segments.toList.drop (span.start + span.len))) =
      (ip.segments.toList.take span.start, false,
        ':' :: ':' :: fmtSubslice (ip.segments.toList.drop (span.start + span.len))) :=
    Reader.groups_fmtSubslice (by omega) (Or.inr ⟨_, rfl⟩)
      (by simpa using Reader.dot_not_mem_fmtSubslice _)
  have hTail : Reader.groups (8 - (span.start + 1)) 0 (8 - (span.start + 1))
      (fmtSubslice (ip.segments.toList.drop (span.start + span.len)) ++ []) =
      (ip.segments.toList.drop (span.start + span.len), false, []) :=
    Reader.groups_fmtSubslice (by omega) (Or.inl rfl) (by simp)
  rw [List.append_nil] at hTail
  have hSegments : Reader.segments (ip.segments.toList.take span.start)
      (ip.segments.toList.drop (span.start + span.len)) = ip.segments := by
    apply Reader.segments_eq
    rw [hHeadLength, hTailLength,
      show 8 - span.start - (8 - (span.start + span.len)) = span.len by omega]
    exact hWithin.split
  have hRead := Reader.ipv6Addr_of_groups hHead (by omega) (by rw [hHeadLength]; exact hTail)
  have hText : fmtSubslice (ip.segments.toList.take span.start) ++ "::".toList ++
      fmtSubslice (ip.segments.toList.drop (span.start + span.len)) =
      fmtSubslice (ip.segments.toList.take span.start) ++
        ':' :: ':' :: fmtSubslice (ip.segments.toList.drop (span.start + span.len)) := by
    rw [List.append_assoc]
    rfl
  rw [Ipv6Addr.parse, Reader.parseWith, hText, hRead, hSegments]

theorem parse_toString (ip : Ipv6Addr) : Ipv6Addr.parse ip.toString = some ip := by
  unfold toString
  split
  case h_1 ipv4 hMapped => exact parse_mapped hMapped
  case h_2 hPlain =>
      dsimp only
      split
      case isTrue hLong => exact parse_shortened (zeroes_within _) hLong
      case isFalse hShort => exact parse_full ip

end Ipv6Addr

end RustDns
