import RustDns.Blocklist.Basic

/-! Shape of a normalized entry, and what normalizing it once more does. Only
dots left at its end can still change. -/
namespace RustDns.Blocklist

open Str Unicode

theorem mem_of_mem_cutFrom {c x : Char} {d : Str} (hx : x ∈ cutFrom c d) : x ∈ d := by
  unfold cutFrom at hx
  split at hx
  · exact List.mem_of_mem_take hx
  · exact hx

theorem not_mem_cutFrom (c : Char) (d : Str) : c ∉ cutFrom c d := by
  unfold cutFrom
  split
  case h_1 i hFind => exact (find_some hFind).2
  case h_2 hFind => exact find_none hFind

theorem cutFrom_of_not_mem {c : Char} {d : Str} (hNot : c ∉ d) : cutFrom c d = d := by
  simp [cutFrom, find_eq_none hNot]

theorem mem_of_mem_cutScheme {x : Char} {d : Str} (hx : x ∈ cutScheme d) : x ∈ d := by
  unfold cutScheme at hx
  split at hx
  · exact List.mem_of_mem_drop hx
  · exact hx

theorem cutScheme_of_no_colon {d : Str} (hNot : ':' ∉ d) : cutScheme d = d := by
  have hNone : findStr [':', '/', '/'] d = none := findStr_eq_none (by simp) hNot
  simp [cutScheme, hNone]

/-- Text that scheme, path and port cutting leave alone. -/
structure HostText (s : Str) : Prop where
  lower : ∀ c ∈ s, toLower c = [c]
  slash : '/' ∉ s
  colon : ':' ∉ s

theorem HostText.of_subset {s t : Str} (ht : HostText t) (hSubset : s ⊆ t) : HostText s where
  lower := fun c hc => ht.lower c (hSubset hc)
  slash := fun hMem => ht.slash (hSubset hMem)
  colon := fun hMem => ht.colon (hSubset hMem)

theorem mem_toLowercase_of_mem_hostPart {raw : Str} {x : Char} (hx : x ∈ hostPart raw) :
    x ∈ toLowercase (trim raw) :=
  mem_of_mem_cutScheme (mem_of_mem_cutFrom (mem_of_mem_cutFrom hx))

theorem hostText_hostPart (raw : Str) : HostText (hostPart raw) where
  lower := fun _ hc => (mem_lowercaseFrom (mem_toLowercase_of_mem_hostPart hc)).1
  slash := fun hMem => not_mem_cutFrom '/' _ (mem_of_mem_cutFrom hMem)
  colon := not_mem_cutFrom ':' _

theorem hostPart_of_hostText {s : Str} (hs : HostText s) : hostPart s = trim s := by
  have hTrim : HostText (trim s) := hs.of_subset fun _ hx => Scan.mem_of_mem_trim hx
  rw [hostPart, toLowercase, lowercaseFrom_of_fixed hTrim.lower, cutScheme_of_no_colon hTrim.colon,
    cutFrom_of_not_mem hTrim.slash, cutFrom_of_not_mem hTrim.colon]

/-- A normalized entry: host text with no white space around it. -/
structure Normal (e : Str) : Prop where
  host : HostText e
  trimmed : Scan.Trimmed isWhitespace e

theorem normalize_subset_hostPart (raw : Str) : normalize raw ⊆ hostPart raw :=
  fun _ hx => Scan.mem_of_mem_rdropWhile (Scan.mem_of_mem_trim hx)

theorem normal_normalize (raw : Str) : Normal (normalize raw) where
  host := (hostText_hostPart raw).of_subset (normalize_subset_hostPart raw)
  trimmed := Scan.trimmed_trim _ _

theorem newline_not_mem_normalize {raw : Str} (hRaw : '\n' ∉ raw) : '\n' ∉ normalize raw := by
  intro hMem
  have hLower := mem_toLowercase_of_mem_hostPart (normalize_subset_hostPart raw hMem)
  exact hRaw (Scan.mem_of_mem_trim (mem_of_mem_toLowercase (by decide) hLower))

theorem Normal.normalize_eq {e : Str} (he : Normal e) :
    normalize e = trim (trimEndMatches '.' e) := by
  rw [normalize, hostPart_of_hostText he.host, trim_eq_self he.trimmed]

/-- An entry without a dot at its end is a fixed point. -/
theorem Normal.normalize_eq_self {e : Str} (he : Normal e) (hDot : e.getLast? ≠ some '.') :
    normalize e = e := by
  rw [he.normalize_eq, trimEndMatches_eq_self hDot, trim_eq_self he.trimmed]

/-- Normalizing an entry again only cuts at its end. -/
theorem Normal.normalize_prefix {e : Str} (he : Normal e) :
    normalize e <+: trimEndMatches '.' e := by
  have hHead : ∀ x ∈ (trimEndMatches '.' e).head?, isWhitespace x = false := fun x hx =>
    he.trimmed.head x (Scan.head_of_head_rdropWhile hx)
  rw [he.normalize_eq, trim, Scan.trim, Scan.dropWhile_of_head hHead]
  exact List.rdropWhile_prefix _ _

/-- A dot at the end is lost, so the entry gets strictly shorter. -/
theorem Normal.normalize_lt {e : Str} (he : Normal e) (hDot : e.getLast? = some '.') :
    (normalize e).length < e.length := by
  obtain ⟨front, rfl⟩ := List.getLast?_eq_some_iff.mp hDot
  have hCut : trimEndMatches '.' (front ++ ['.']) = trimEndMatches '.' front :=
    List.rdropWhile_concat_pos _ _ _ (by simp)
  have hPrefix := he.normalize_prefix
  rw [hCut] at hPrefix
  have hShorter := (hPrefix.trans (List.rdropWhile_prefix _ _)).length_le
  simp only [List.length_append, List.length_singleton]
  omega

/-! The wildcard prefix in front of a line. -/

theorem trimmed_wildcard {s : Str} (hNonempty : s ≠ []) (hs : Scan.Trimmed isWhitespace s) :
    Scan.Trimmed isWhitespace (wildcardPrefix ++ s) where
  head := by
    intro x hx
    obtain rfl : '*' = x := by simpa [wildcardPrefix] using hx
    decide
  last := by
    intro x hx
    rw [List.getLast?_append_of_ne_nil _ hNonempty] at hx
    exact hs.last x hx

theorem oneLine_wildcard {s : Str} (hs : OneLine s) : OneLine (wildcardPrefix ++ s) where
  newline := by simp [wildcardPrefix, hs.newline]
  carriageReturn := by
    rw [List.getLast?_append_of_ne_nil _ hs.nonempty]
    exact hs.carriageReturn
  nonempty := by simp [wildcardPrefix]

end RustDns.Blocklist
