import AcpltKs.Path.Reading

/-! What a resource locator is split into: a host, a server and a path. -/
namespace AcpltKs

/-- What `parseResourceLocator` leaves in the members of the parser. -/
structure LocatorScan where
  pathType : KscPathType
  pathStartIndex : ℕ := 0
  hostLen : ℕ := 0
  hostserver : KsString := []

/-- The loop to the next slash or to the end, over the memory behind position `p`. Nothing if it
leaves that memory. -/
def skipName : List UInt8 → ℕ → Option ℕ
  | [], _ => none
  | c :: mem, p => if c ≠ 0 ∧ c ≠ slashChar then skipName mem (p + 1) else some (p + 1)

/-- The part of `parseResourceLocator` behind the slash at `p` that ends the host. -/
def scanServer (mem : List UInt8) (hostLen p : ℕ) : Option LocatorScan := do
  let c ← mem[p + 1]?
  if c = 0 ∧ c ≠ slashChar then some { pathType := .invalid, hostLen }
  else
    let p ← skipName (mem.drop (p + 2)) (p + 1)
    let c ← mem[p]?
    if c = 0 then some { pathType := .hostServer, hostLen, hostserver := cString mem }
    else some {
      pathType := .resourceLocator
      pathStartIndex := p
      hostLen
      hostserver := (cString mem).take p }

/-- `parseResourceLocator` on the memory of a string up to its null character. Nothing if a character
behind that is read. -/
def scanLocator (mem : List UInt8) : Option LocatorScan := do
  let c ← mem[0]?
  if c ≠ slashChar then some { pathType := .invalid }
  else
    let c ← mem[1]?
    if c ≠ slashChar then some { pathType := .pathOnly }
    else
      let c ← mem[2]?
      if c = 0 ∧ c ≠ slashChar then some { pathType := .invalid }
      else
        let p ← skipName (mem.drop 3) 2
        let c ← mem[p]?
        if c = 0 then some { pathType := .host, hostLen := p - 2, hostserver := cString mem }
        else scanServer mem (p - 2) p

namespace KscPathParser

/-- The constructor, together with the length of the host. -/
def construct (str : KsString) (undefined : ℕ) : Option (KscPathParser × ℕ) := do
  let str := cString str
  let scan ← scanLocator (str ++ [0])
  let fullPath := KscPath.ofString (str.drop scan.pathStartIndex)
  some (if scan.pathType = .resourceLocator ∨ scan.pathType = .pathOnly then
      if fullPath.valid then ⟨scan.pathType, scan.hostserver, fullPath⟩
      else ⟨.invalid, scan.hostserver, .ofString str⟩
    else if scan.pathType = .invalid then ⟨.invalid, scan.hostserver, .ofString str⟩
    else ⟨scan.pathType, scan.hostserver, ⟨[], false, undefined, 0⟩⟩, scan.hostLen)

def getHostname (parser : KscPathParser) (hostLen : ℕ) : KsString :=
  if parser.pathType = .invalid then [] else substr parser.hostserver 2 (some hostLen)

def getServername (parser : KscPathParser) (hostLen : ℕ) : KsString :=
  if parser.pathType = .invalid then [] else substr parser.hostserver (hostLen + 3) none

end KscPathParser

/-- The forms of a locator. -/
inductive Locator where
  | host (h : KsString)
  | hostServer (h s : KsString)
  | resource (h s : KsString) (path : List PathName)
  | pathOnly (path : List PathName)

namespace Locator

def hostname : Locator → KsString
  | .host h | .hostServer h _ | .resource h _ _ => h
  | .pathOnly _ => []

def servername : Locator → KsString
  | .hostServer _ s | .resource _ s _ => s
  | .host _ | .pathOnly _ => []

def pathText : Locator → KsString
  | .resource _ _ path | .pathOnly path => writePath path
  | .host _ | .hostServer _ _ => []

def type : Locator → KscPathType
  | .host _ => .host
  | .hostServer _ _ => .hostServer
  | .resource _ _ _ => .resourceLocator
  | .pathOnly _ => .pathOnly

def write : Locator → KsString
  | .host h => slashChar :: slashChar :: h
  | .hostServer h s => slashChar :: slashChar :: (h ++ slashChar :: s)
  | .resource h s path => slashChar :: slashChar :: (h ++ slashChar :: (s ++ writePath path))
  | .pathOnly path => writePath path

/-- What holds of the names of host and server, as far as there are any. -/
def Names (P : KsString → Prop) : Locator → Prop
  | .host h => P h
  | .hostServer h s | .resource h s _ => P h ∧ P s
  | .pathOnly _ => True

end Locator

/-- A name of a host or a server. -/
def IsLocatorName (name : KsString) : Prop := name ≠ [] ∧ 0 ∉ name ∧ slashChar ∉ name

/-- Any character, and no slash behind it. -/
def IsLaxName (name : KsString) : Prop := name ≠ [] ∧ 0 ∉ name ∧ slashChar ∉ name.tail

/-- The type that the grammar of locators gives to a string. -/
def Classified (str : KsString) (t : KscPathType) : Prop :=
  (∃ loc : Locator, loc.Names IsLocatorName ∧ str = loc.write ∧ t = loc.type) ∨
    (∀ loc : Locator, loc.Names IsLocatorName → str ≠ loc.write) ∧ t = .invalid

namespace KscPathParser

/-- The parts of a locator. -/
structure PartsOf (parser : KscPathParser) (hostLen : ℕ) (loc : Locator) : Prop where
  type : parser.pathType = loc.type
  hostname : parser.getHostname hostLen = loc.hostname
  servername : parser.getServername hostLen = loc.servername
  pathText : parser.fullPath.str = loc.pathText
  toKsString : parser.toKsString = loc.write

/-- The type is the right one, a valid locator is made up of its parts, and nothing is read behind
the null character. -/
def SplitsExactly (str : KsString) (undefined : ℕ) : Prop :=
  ∃ parser hostLen, construct str undefined = some (parser, hostLen) ∧
    (∀ t, parser.pathType = t ↔ Classified (cString str) t) ∧
    (parser.pathType ≠ .invalid →
      ∃ loc : Locator, loc.write = cString str ∧ parser.PartsOf hostLen loc)

end KscPathParser

section Scanning
variable {h s name rest : KsString} {c d : UInt8} {p : ℕ}

theorem IsLocatorName.lax (hname : IsLocatorName name) : IsLaxName name :=
  ⟨hname.1, hname.2.1, fun hmem => hname.2.2 (List.mem_of_mem_tail hmem)⟩

theorem skipName_eq (hzero : 0 ∉ name) (hslash : slashChar ∉ name) (hd : d = 0 ∨ d = slashChar)
    (p : ℕ) : skipName (name ++ d :: rest) p = some (p + name.length + 1) := by
  induction name generalizing p with
  | nil =>
    rw [List.nil_append, skipName, if_neg (by tauto)]
    rfl
  | cons a name ih =>
    obtain ⟨ha, hzero⟩ := not_or.mp (mt List.mem_cons.mpr hzero)
    obtain ⟨ha', hslash⟩ := not_or.mp (mt List.mem_cons.mpr hslash)
    rw [List.cons_append, skipName, if_pos ⟨fun h => ha h.symm, fun h => ha' h.symm⟩,
      ih hzero hslash, List.length_cons]
    congr 1
    omega

variable (rest) in
/-- Behind the host stands the end of the string or the slash in front of the server. -/
theorem scanLocator_host (hh : IsLaxName h) (hd : d = 0 ∨ d = slashChar) :
    scanLocator (slashChar :: slashChar :: (h ++ d :: rest)) =
      if d = 0 then some {
        pathType := .host
        hostLen := h.length
        hostserver := cString (slashChar :: slashChar :: (h ++ d :: rest)) }
      else scanServer (slashChar :: slashChar :: (h ++ d :: rest)) h.length (h.length + 2) := by
  obtain ⟨hne, hzero, hslash⟩ := hh
  obtain ⟨a, h, rfl⟩ := List.exists_cons_of_ne_nil hne
  have ha : ¬ (a = 0 ∧ a ≠ slashChar) := fun ha => hzero (ha.1 ▸ List.mem_cons_self)
  have hskip : skipName (h ++ d :: rest) 2 = some (2 + h.length + 1) :=
    skipName_eq (fun hmem => hzero (List.mem_cons_of_mem a hmem)) hslash hd 2
  have hend : (a :: (h ++ d :: rest))[(a :: h).length]? = some d := by simp
  have hlength : 2 + h.length + 1 = (a :: h).length + 2 := by
    rw [List.length_cons]
    omega
  rw [hlength] at hskip
  simp only [scanLocator, List.getElem?_cons_zero, List.getElem?_cons_succ, Option.bind_eq_bind,
    Option.bind_some, ne_eq, not_true_eq_false, if_false, List.cons_append, ha, List.drop_succ_cons,
    List.drop_zero, hskip, hend, Nat.add_sub_cancel]

variable (rest) in
/-- Behind the server stands the end of the string or the slash of the root. -/
theorem scanServer_server (before : KsString) (hs : IsLaxName s) (hd : d = 0 ∨ d = slashChar)
    (hostLen : ℕ) : scanServer (before ++ slashChar :: (s ++ d :: rest)) hostLen before.length =
      some (if d = 0 then {
        pathType := .hostServer
        hostLen
        hostserver := cString (before ++ slashChar :: (s ++ d :: rest)) }
      else {
        pathType := .resourceLocator
        pathStartIndex := before.length + 1 + s.length
        hostLen
        hostserver := (cString (before ++ slashChar :: (s ++ d :: rest))).take
          (before.length + 1 + s.length) }) := by
  obtain ⟨hne, hzero, hslash⟩ := hs
  obtain ⟨a, s, rfl⟩ := List.exists_cons_of_ne_nil hne
  have ha : ¬ (a = 0 ∧ a ≠ slashChar) := fun ha => hzero (ha.1 ▸ List.mem_cons_self)
  have hfirst : (before ++ slashChar :: (a :: s ++ d :: rest))[before.length + 1]? = some a := by
    simp
  have hdrop : (before ++ slashChar :: (a :: s ++ d :: rest)).drop (before.length + 2) =
      s ++ d :: rest := by
    rw [← List.drop_drop, List.drop_left]
    rfl
  have hskip : skipName (s ++ d :: rest) (before.length + 1) =
      some (before.length + 1 + s.length + 1) :=
    skipName_eq (fun hmem => hzero (List.mem_cons_of_mem a hmem)) hslash hd _
  have hlength : before.length + 1 + s.length + 1 = before.length + 1 + (a :: s).length := by
    rw [List.length_cons, Nat.add_assoc]
  have hend : (before ++ slashChar :: (a :: s ++ d :: rest))[before.length + 1 + (a :: s).length]? =
      some d := by
    have hsplit : before ++ slashChar :: (a :: s ++ d :: rest) =
        (before ++ slashChar :: a :: s) ++ d :: rest := by simp
    have hindex : before.length + 1 + (a :: s).length =
        (before ++ slashChar :: a :: s).length := by
      simp only [List.length_append, List.length_cons]
      omega
    rw [hsplit, hindex, List.getElem?_append_right le_rfl, Nat.sub_self]
    rfl
  rw [scanServer, hfirst]
  simp only [Option.bind_eq_bind, Option.bind_some, if_neg ha, hdrop, hskip, hlength, hend]
  split_ifs <;> rfl

variable (rest) in
theorem scanLocator_server (hh : IsLaxName h) (hs : IsLaxName s) (hd : d = 0 ∨ d = slashChar) :
    let mem := slashChar :: slashChar :: (h ++ slashChar :: (s ++ d :: rest))
    scanLocator mem = some (if d = 0 then {
        pathType := .hostServer
        hostLen := h.length
        hostserver := cString mem }
      else {
        pathType := .resourceLocator
        pathStartIndex := h.length + 2 + 1 + s.length
        hostLen := h.length
        hostserver := (cString mem).take (h.length + 2 + 1 + s.length) }) := by
  intro mem
  have hserver := scanServer_server rest (slashChar :: slashChar :: h) hs hd
    h.length
  have hhost := scanLocator_host (s ++ d :: rest) hh (Or.inr rfl)
  rw [if_neg (by decide)] at hhost
  exact hhost.trans hserver

theorem memory_charAt {str : KsString} {i : ℕ} (hi : i ≤ str.length) :
    (str ++ [0])[i]? = some (charAt str i) := by
  obtain hlt | rfl := hi.lt_or_eq
  · rw [List.getElem?_append_left hlt, charAt, List.getD_eq_getElem?_getD,
      List.getElem?_eq_getElem hlt, Option.getD_some]
  · simp [charAt]

theorem lt_length_of_charAt {str : KsString} {i : ℕ} (hi : charAt str i ≠ 0) : i < str.length := by
  by_contra hle
  exact hi (by rw [charAt, List.getD_eq_default _ _ (by omega)])

theorem nextSlash_le (str : KsString) {i : ℕ} (hi : i ≤ str.length) : nextSlash str i ≤ str.length := by
  have hle := (List.takeWhile_sublist (l := str.drop i) fun c => c ≠ 0 && c ≠ slashChar).length_le
  rw [List.length_drop] at hle
  rw [nextSlash]
  omega

theorem skipName_memory {str : KsString} {i : ℕ} (hi : i ≤ str.length) (p : ℕ) (hp : p + 1 = i) :
    skipName ((str ++ [0]).drop i) p = some (nextSlash str i) := by
  have hskip : ∀ (t : KsString) p, skipName (t ++ [0]) p =
      some (p + 1 + (t.takeWhile fun c => c ≠ 0 && c ≠ slashChar).length) := by
    intro t
    induction t with
    | nil => exact fun p => rfl
    | cons a t ih =>
      intro p
      rw [List.cons_append, skipName]
      by_cases ha : a ≠ 0 ∧ a ≠ slashChar
      · rw [if_pos ha, ih, List.takeWhile_cons_of_pos (by simpa using ha), List.length_cons]
        congr 1
        omega
      · rw [if_neg ha, List.takeWhile_cons_of_neg (by simpa using ha)]
        rfl
  rw [List.drop_append_of_le_length hi, hskip, nextSlash, hp]

/-- What the scan finds out is what the parser relies on. -/
theorem scanLocator_eq {str : KsString} (hzero : 0 ∉ str) :
    ∃ hostLen, scanLocator (str ++ [0]) = some {
      pathType := (KscPathParser.parseResourceLocator str).1
      pathStartIndex := (KscPathParser.parseResourceLocator str).2.2
      hostLen
      hostserver := (KscPathParser.parseResourceLocator str).2.1 } := by
  have hstr : cString (str ++ [0]) = str := (cString_append hzero [0]).trans (List.append_nil _)
  have hslash : ∀ {i}, charAt str i = slashChar → i < str.length :=
    fun h => lt_length_of_charAt (h ▸ by decide)
  rw [scanLocator, memory_charAt (Nat.zero_le _), KscPathParser.parseResourceLocator]
  simp only [Option.bind_eq_bind, Option.bind_some]
  by_cases h0 : charAt str 0 = slashChar
  swap
  · exact ⟨0, by rw [if_pos h0, if_pos h0]⟩
  rw [if_neg (not_not_intro h0), if_neg (not_not_intro h0), memory_charAt (hslash h0)]
  simp only [Option.bind_some]
  by_cases h1 : charAt str 1 = slashChar
  swap
  · exact ⟨0, by rw [if_pos h1, if_pos h1]⟩
  rw [if_neg (not_not_intro h1), if_neg (not_not_intro h1), memory_charAt (hslash h1)]
  simp only [Option.bind_some]
  by_cases h2 : charAt str 2 = 0
  · exact ⟨0, by rw [if_pos ⟨h2, h2 ▸ by decide⟩, if_pos h2]⟩
  have hlt := lt_length_of_charAt h2
  have hle := nextSlash_le str hlt
  rw [if_neg (fun h => h2 h.1), if_neg h2, skipName_memory hlt 2 rfl]
  simp only [Option.bind_some]
  rw [memory_charAt hle]
  simp only [Option.bind_some]
  by_cases h3 : charAt str (nextSlash str 3) = 0
  · exact ⟨_, by rw [if_pos h3, if_pos h3, hstr]⟩
  have hlt3 := lt_length_of_charAt h3
  rw [if_neg h3, if_neg h3, scanServer, memory_charAt hlt3]
  simp only [Option.bind_eq_bind, Option.bind_some]
  by_cases h4 : charAt str (nextSlash str 3 + 1) = 0
  · exact ⟨_, by rw [if_pos ⟨h4, h4 ▸ by decide⟩, if_pos h4]⟩
  have hlt4 := lt_length_of_charAt h4
  have hle5 := nextSlash_le str hlt4
  rw [if_neg (fun h => h4 h.1), if_neg h4, skipName_memory hlt4 _ rfl]
  simp only [Option.bind_some]
  rw [memory_charAt hle5]
  simp only [Option.bind_some, hstr]
  split_ifs <;> exact ⟨_, rfl⟩

/-- A string is cut behind its first characters at the next slash. -/
theorem exists_laxName {str : KsString} (hne : str ≠ []) (hzero : 0 ∉ str) :
    ∃ name rest, IsLaxName name ∧ str = name ++ rest ∧
      (rest = [] ∨ ∃ rest', rest = slashChar :: rest') := by
  obtain ⟨a, str, rfl⟩ := List.exists_cons_of_ne_nil hne
  refine ⟨a :: str.takeWhile (· ≠ slashChar), str.dropWhile (· ≠ slashChar),
    ⟨List.cons_ne_nil _ _, fun hmem => hzero ?_, fun hmem => ?_⟩, ?_, ?_⟩
  · obtain rfl | hmem := List.mem_cons.mp hmem
    · exact List.mem_cons_self
    · exact List.mem_cons_of_mem a ((List.takeWhile_sublist _).subset hmem)
  · simpa using List.mem_takeWhile_imp hmem
  · rw [List.cons_append, List.takeWhile_append_dropWhile]
  · cases hrest : str.dropWhile (· ≠ slashChar) with
    | nil => exact Or.inl rfl
    | cons b rest =>
      have hhead := List.head_dropWhile_not (· ≠ slashChar) (l := str) (by rw [hrest]; simp)
      simp only [hrest, List.head_cons] at hhead
      exact Or.inr ⟨rest, by rw [show b = slashChar by simpa using hhead]⟩

end Scanning

section Parts
variable {h s str : KsString} {path : List PathName} {undefined : ℕ} {loc : Locator}

theorem substr_behind (hzero : 0 ∉ str) {first : ℕ} (hne : first ≠ 0) :
    substr str first none = str.drop first ∧
      ∀ n, substr str first (some n) = (str.drop first).take n := by
  have hdrop : cString (str.drop first) = str.drop first :=
    cString_eq_self fun hmem => hzero (List.mem_of_mem_drop hmem)
  constructor
  · rw [substr, if_neg (fun h => hne h.1), hdrop]
    split_ifs with hlt
    · rfl
    · rw [List.drop_eq_nil_of_le (by omega)]
  · intro n
    rw [substr, if_neg (fun h => hne h.1), hdrop]
    split_ifs with hlt
    · rfl
    · rw [List.drop_eq_nil_of_le (by omega), List.take_nil]

namespace Locator

theorem Names.mono {P Q : KsString → Prop} (hPQ : ∀ name, P name → Q name)
    (hnames : loc.Names P) : loc.Names Q := by
  cases loc with
  | host h => exact hPQ h hnames
  | hostServer h s => exact ⟨hPQ h hnames.1, hPQ s hnames.2⟩
  | resource h s path => exact ⟨hPQ h hnames.1, hPQ s hnames.2⟩
  | pathOnly path => trivial

variable (loc) in
theorem zero_notMem_write (hlax : loc.Names IsLaxName) : 0 ∉ loc.write := by
  have hslash : (0 : UInt8) ≠ slashChar := by decide
  cases loc with
  | host h => simpa [write, hslash] using hlax.2.1
  | hostServer h s => simpa [write, hslash, not_or] using ⟨hlax.1.2.1, hlax.2.2.1⟩
  | resource h s path =>
    simpa [write, hslash, not_or] using ⟨hlax.1.2.1, hlax.2.2.1, not_mem_writePath path⟩
  | pathOnly path => exact not_mem_writePath path

end Locator

namespace KscPathParser

/-- A path begins with one slash. -/
theorem writePath_eq_cons (path : List PathName) :
    ∃ t, writePath path = slashChar :: t ∧ ∀ a ∈ t.head?, a ≠ slashChar := by
  cases path with
  | nil => exact ⟨[], rfl, by simp⟩
  | cons c path =>
    obtain ⟨a, name, hname, ha⟩ := c.exists_cons
    rw [writePath, writeNames_cons, PathName.delimiter, hname]
    cases c.isPart
    · exact ⟨_, rfl, fun b hb => Option.some.inj hb ▸ (isNameChar_ne ha).2.1⟩
    · exact ⟨_, rfl, fun b hb => Option.some.inj hb ▸ by decide⟩

theorem valid_writePath (path : List PathName) : (KscPath.ofString (writePath path)).valid = true := by
  obtain ⟨last, hparse⟩ := parse_writePath path
  rw [KscPath.ofString, hparse]

theorem ofString_str (str : KsString) : (KscPath.ofString str).str = str := by
  rw [KscPath.ofString]
  split <;> rfl

theorem construct_host (hlax : IsLaxName h) (hstr : cString str = (Locator.host h).write) :
    ∃ parser hostLen, construct str undefined = some (parser, hostLen) ∧
      parser.PartsOf hostLen (.host h) := by
  have hzero := Locator.zero_notMem_write (.host h) hlax
  have hscan := scanLocator_host [] hlax (Or.inl rfl)
  have hmem : cString (slashChar :: slashChar :: (h ++ [0])) = slashChar :: slashChar :: h :=
    (cString_append hzero [0]).trans (List.append_nil _)
  rw [if_pos rfl, hmem] at hscan
  refine ⟨⟨.host, (Locator.host h).write, ⟨[], false, undefined, 0⟩⟩, h.length, ?_, rfl, ?_, ?_, rfl,
    rfl⟩
  · rw [construct, hstr]
    simp only [Locator.write, List.cons_append, hscan]
    rfl
  · rw [getHostname, if_neg (by simp), (substr_behind hzero two_ne_zero).2]
    simp [Locator.write, Locator.hostname]
  · rw [getServername, if_neg (by simp), (substr_behind hzero (Nat.succ_ne_zero _)).1]
    simp [Locator.write, Locator.servername]

theorem construct_hostServer (hlax : IsLaxName h ∧ IsLaxName s)
    (hstr : cString str = (Locator.hostServer h s).write) :
    ∃ parser hostLen, construct str undefined = some (parser, hostLen) ∧
      parser.PartsOf hostLen (.hostServer h s) := by
  have hzero := Locator.zero_notMem_write (.hostServer h s) hlax
  have hscan := scanLocator_server [] hlax.1 hlax.2 (Or.inl rfl)
  have hmem : cString (slashChar :: slashChar :: (h ++ slashChar :: (s ++ [0]))) =
      (Locator.hostServer h s).write := by
    have hcut := cString_append hzero [0]
    rw [Locator.write, List.cons_append, List.cons_append, List.append_assoc, List.cons_append]
      at hcut
    exact hcut.trans (List.append_nil _)
  simp only [if_true, hmem] at hscan
  refine ⟨⟨.hostServer, (Locator.hostServer h s).write, ⟨[], false, undefined, 0⟩⟩, h.length, ?_,
    rfl, ?_, ?_, rfl, rfl⟩
  · rw [construct, hstr]
    simp only [Locator.write, List.cons_append, List.append_assoc, hscan]
    rfl
  · rw [getHostname, if_neg (by simp), (substr_behind hzero two_ne_zero).2]
    simp [Locator.write, Locator.hostname]
  · rw [getServername, if_neg (by simp), (substr_behind hzero (Nat.succ_ne_zero _)).1]
    simp [Locator.write, Locator.servername]

theorem construct_resource (hlax : IsLaxName h ∧ IsLaxName s)
    (hstr : cString str = (Locator.resource h s path).write) :
    ∃ parser hostLen, construct str undefined = some (parser, hostLen) ∧
      parser.PartsOf hostLen (.resource h s path) := by
  have hzero := Locator.zero_notMem_write (.resource h s path) hlax
  have hzero' := Locator.zero_notMem_write (.hostServer h s) hlax
  obtain ⟨t, hpath, -⟩ := writePath_eq_cons path
  have hwrite : (Locator.resource h s path).write =
      slashChar :: slashChar :: (h ++ slashChar :: (s ++ slashChar :: t)) := by
    rw [Locator.write, hpath]
  have hsplit : (Locator.resource h s path).write =
      (Locator.hostServer h s).write ++ writePath path := by
    simp [Locator.write]
  have hlength : h.length + 2 + 1 + s.length = (Locator.hostServer h s).write.length := by
    simp only [Locator.write, List.length_cons, List.length_append]
    omega
  have hscan := scanLocator_server (t ++ [0]) hlax.1 hlax.2 (Or.inr rfl)
  have hmem : cString (slashChar :: slashChar :: (h ++ slashChar :: (s ++ slashChar :: (t ++ [0]))))
      = (Locator.resource h s path).write := by
    have hcut := cString_append hzero [0]
    simp only [hwrite, List.cons_append, List.append_assoc] at hcut ⊢
    exact hcut.trans (by simp [cString])
  simp only [if_neg (show slashChar ≠ 0 by decide), hmem, hlength] at hscan
  refine ⟨⟨.resourceLocator, (Locator.hostServer h s).write, KscPath.ofString (writePath path)⟩,
    h.length, ?_, rfl, ?_, ?_, ofString_str _, ?_⟩
  · have hstart : (Locator.resource h s path).write ++ [0] =
        slashChar :: slashChar :: (h ++ slashChar :: (s ++ slashChar :: (t ++ [0]))) := by
      simp [hwrite]
    rw [construct, hstr]
    simp only [hstart, hscan, Option.bind_eq_bind, Option.bind_some, true_or, if_true]
    rw [hsplit, List.drop_left, List.take_left, if_pos (valid_writePath path)]
  · rw [getHostname, if_neg (by simp), (substr_behind hzero' two_ne_zero).2]
    simp [Locator.write, Locator.hostname]
  · rw [getServername, if_neg (by simp), (substr_behind hzero' (Nat.succ_ne_zero _)).1]
    simp [Locator.write, Locator.servername]
  · rw [toKsString]
    simp only [ofString_str, concat]
    rw [cString_eq_self hzero', cString_eq_self (not_mem_writePath path), hsplit]

theorem construct_pathOnly (hstr : cString str = writePath path) :
    ∃ parser hostLen, construct str undefined = some (parser, hostLen) ∧
      parser.PartsOf hostLen (.pathOnly path) := by
  obtain ⟨t, hpath, hhead⟩ := writePath_eq_cons path
  have hscan : scanLocator (writePath path ++ [0]) = some { pathType := .pathOnly } := by
    cases t with
    | nil => rw [hpath]; rfl
    | cons a t =>
      rw [hpath]
      simp [scanLocator, hhead a rfl]
  refine ⟨⟨.pathOnly, [], KscPath.ofString (writePath path)⟩, 0, ?_, rfl, ?_, ?_, ofString_str _,
    ofString_str _⟩
  · rw [construct, hstr]
    simp only [hscan, Option.bind_eq_bind, Option.bind_some, or_true, if_true, List.drop_zero]
    rw [if_pos (valid_writePath path)]
  · rfl
  · rfl

/-- The constructor stays inside the string and makes the parser that is described by `ofString`. -/
theorem construct_eq (str : KsString) (undefined : ℕ) :
    ∃ hostLen, construct str undefined = some (ofString str undefined, hostLen) := by
  obtain ⟨hostLen, hscan⟩ := scanLocator_eq (not_mem_cString str)
  refine ⟨hostLen, ?_⟩
  rw [construct, ofString]
  simp only [hscan, Option.bind_eq_bind, Option.bind_some]

variable (undefined) in
/-- The parts of a locator are found, also if a name begins with a slash. -/
theorem construct_lax (hlax : loc.Names IsLaxName) (hstr : cString str = loc.write) :
    ∃ parser hostLen, construct str undefined = some (parser, hostLen) ∧
      parser.PartsOf hostLen loc := by
  cases loc with
  | host h => exact construct_host hlax hstr
  | hostServer h s => exact construct_hostServer hlax hstr
  | resource h s path => exact construct_resource hlax hstr
  | pathOnly path => exact construct_pathOnly hstr

theorem construct_of_scan (scan : LocatorScan) (hscan : scanLocator (cString str ++ [0]) = some scan)
    (hinvalid : scan.pathType = .invalid ∨
      (scan.pathType = .resourceLocator ∨ scan.pathType = .pathOnly) ∧
        (KscPath.ofString ((cString str).drop scan.pathStartIndex)).valid = false) :
    ∃ parser hostLen, construct str undefined = some (parser, hostLen) ∧
      parser.pathType = .invalid := by
  rw [construct]
  simp only [hscan, Option.bind_eq_bind, Option.bind_some]
  refine ⟨_, _, rfl, ?_⟩
  obtain htype | ⟨htype, hpath⟩ := hinvalid
  · simp [htype]
  · rw [if_pos htype, hpath, if_neg Bool.false_ne_true]

variable (undefined) in
/-- All other strings are invalid. -/
theorem construct_invalid (hnone : ∀ loc : Locator, loc.Names IsLaxName → cString str ≠ loc.write) :
    ∃ parser hostLen, construct str undefined = some (parser, hostLen) ∧
      parser.pathType = .invalid := by
  have hzero := not_mem_cString str
  have hpath : ∀ q, 0 ∉ q → (∀ path, q ≠ writePath path) → (KscPath.ofString q).valid = false := by
    intro q hq hno
    by_contra hvalid
    obtain ⟨path, hq⟩ := exists_writePath hq (by simpa using hvalid)
    exact hno path hq
  generalize hs : cString str = s at hnone hzero
  rcases s with _ | ⟨a, _ | ⟨b, t⟩⟩
  · exact construct_of_scan _ (by rw [hs]; rfl) (Or.inl rfl)
  · by_cases ha : a = slashChar
    · exact absurd (by rw [ha]; rfl) (hnone (.pathOnly []) trivial)
    · exact construct_of_scan { pathType := .invalid } (by simp [hs, scanLocator, ha])
        (Or.inl rfl)
  by_cases ha : a = slashChar
  swap
  · exact construct_of_scan { pathType := .invalid } (by simp [hs, scanLocator, ha])
      (Or.inl rfl)
  subst ha
  by_cases hb : b = slashChar
  swap
  · refine construct_of_scan { pathType := .pathOnly } (by simp [hs, scanLocator, hb])
      (Or.inr ⟨Or.inr rfl, ?_⟩)
    rw [hs]
    exact hpath _ hzero fun path => hnone (.pathOnly path) trivial
  subst hb
  by_cases ht : t = []
  · subst ht
    exact construct_of_scan _ (by rw [hs]; rfl) (Or.inl rfl)
  obtain ⟨h, rest, hh, rfl, rfl | ⟨r, rfl⟩⟩ := exists_laxName ht fun hmem => hzero (by simp [hmem])
  · exact absurd (by rw [List.append_nil]; rfl) (hnone (.host h) hh)
  by_cases hr : r = []
  · subst hr
    have hscan := scanLocator_host [0] hh (Or.inr rfl)
    have hend : (slashChar :: slashChar :: (h ++ slashChar :: [0]))[h.length + 2 + 1]? = some 0 := by
      rw [← List.cons_append, ← List.cons_append, List.getElem?_append_right (by simp)]
      simp
    rw [if_neg (by decide), scanServer, hend] at hscan
    refine construct_of_scan { pathType := .invalid, hostLen := h.length } ?_ (Or.inl rfl)
    rw [hs]
    simpa [slashChar] using hscan
  obtain ⟨s, rest, hlax, rfl, rfl | ⟨q, rfl⟩⟩ := exists_laxName hr fun hmem => hzero (by simp [hmem])
  · exact absurd (by rw [List.append_nil]; rfl) (hnone (.hostServer h s) ⟨hh, hlax⟩)
  have hscan := scanLocator_server (q ++ [0]) hh hlax (Or.inr rfl)
  have hlength : h.length + 2 + 1 + s.length =
      (slashChar :: slashChar :: (h ++ slashChar :: s)).length := by
    simp only [List.length_cons, List.length_append]
    omega
  have hsplit : slashChar :: slashChar :: (h ++ slashChar :: (s ++ slashChar :: q)) =
      (slashChar :: slashChar :: (h ++ slashChar :: s)) ++ slashChar :: q := by simp
  have hmem : cString str ++ [0] =
      slashChar :: slashChar :: (h ++ slashChar :: (s ++ slashChar :: (q ++ [0]))) := by simp [hs]
  simp only [if_neg (show slashChar ≠ 0 by decide), ← hmem] at hscan
  refine construct_of_scan _ hscan (Or.inr ⟨Or.inl rfl, ?_⟩)
  rw [hs, hlength, hsplit, List.drop_left]
  refine hpath _ (fun hq => hzero ?_) fun path hq => ?_
  · rw [hsplit]
    exact List.mem_append_right _ hq
  · exact hnone (.resource h s path) ⟨hh, hlax⟩ (by rw [hq]; rfl)

theorem PartsOf.names {parser : KscPathParser} {hostLen : ℕ} {loc' : Locator}
    (h : parser.PartsOf hostLen loc) (h' : parser.PartsOf hostLen loc') {P : KsString → Prop}
    (hnames : loc.Names P) : loc'.Names P := by
  have htype := h.type.symm.trans h'.type
  have hhost := h.hostname.symm.trans h'.hostname
  have hserver := h.servername.symm.trans h'.servername
  cases loc <;> cases loc' <;> simp_all [Locator.type, Locator.hostname, Locator.servername,
    Locator.Names]

/-- Locators are split exactly, unless the name of the host or the server begins with a slash. -/
theorem splitsExactly_iff (str : KsString) (undefined : ℕ) : SplitsExactly str undefined ↔
    ∀ loc : Locator, loc.Names IsLaxName → cString str = loc.write → loc.Names IsLocatorName := by
  have hclassified : ∀ {loc : Locator}, cString str = loc.write → loc.Names IsLocatorName →
      ∀ t, loc.type = t ↔ Classified (cString str) t := by
    intro loc hstr hnames t
    constructor
    · rintro rfl
      exact Or.inl ⟨loc, hnames, hstr, rfl⟩
    · rintro (⟨loc', hnames', hstr', rfl⟩ | ⟨hno, -⟩)
      · obtain ⟨parser, hostLen, hparser, hparts⟩ :=
          construct_lax undefined (hnames.mono fun _ => IsLocatorName.lax) hstr
        obtain ⟨parser', hostLen', hparser', hparts'⟩ :=
          construct_lax undefined (hnames'.mono fun _ => IsLocatorName.lax) hstr'
        obtain ⟨rfl, -⟩ := Prod.mk.inj (Option.some.inj (hparser.symm.trans hparser'))
        exact hparts.type.symm.trans hparts'.type
      · exact absurd hstr (hno loc hnames)
  constructor
  · rintro ⟨parser, hostLen, hparser, htype, -⟩ loc hlax hstr
    obtain ⟨parser', hostLen', hparser', hparts⟩ := construct_lax undefined hlax hstr
    obtain ⟨rfl, rfl⟩ := Prod.mk.inj (Option.some.inj (hparser.symm.trans hparser'))
    obtain ⟨loc', hnames, hstr', -⟩ | ⟨-, hinvalid⟩ := (htype loc.type).mp hparts.type
    · obtain ⟨parser'', hostLen'', hparser'', hparts'⟩ :=
        construct_lax undefined (hnames.mono fun _ => IsLocatorName.lax) hstr'
      obtain ⟨rfl, rfl⟩ := Prod.mk.inj (Option.some.inj (hparser.symm.trans hparser''))
      exact hparts'.names hparts hnames
    · cases loc <;> exact absurd hinvalid (by simp [Locator.type])
  · intro hstrict
    by_cases hex : ∃ loc : Locator, loc.Names IsLaxName ∧ cString str = loc.write
    · obtain ⟨loc, hlax, hstr⟩ := hex
      obtain ⟨parser, hostLen, hparser, hparts⟩ := construct_lax undefined hlax hstr
      refine ⟨parser, hostLen, hparser, fun t => ?_, fun _ => ⟨loc, hstr.symm, hparts⟩⟩
      rw [hparts.type]
      exact hclassified hstr (hstrict loc hlax hstr) t
    · have hnone : ∀ loc : Locator, loc.Names IsLaxName → cString str ≠ loc.write :=
        fun loc hlax hstr => hex ⟨loc, hlax, hstr⟩
      obtain ⟨parser, hostLen, hparser, htype⟩ := construct_invalid undefined hnone
      refine ⟨parser, hostLen, hparser, fun t => ⟨?_, ?_⟩, fun hvalid => absurd htype hvalid⟩
      · rintro rfl
        exact Or.inr ⟨fun loc hnames => hnone loc (hnames.mono fun _ => IsLocatorName.lax), htype⟩
      · rintro (⟨loc, hnames, hstr, -⟩ | ⟨-, rfl⟩)
        · exact absurd hstr (hnone loc (hnames.mono fun _ => IsLocatorName.lax))
        · exact htype

/-- `///` is taken for a locator of the host `/`. -/
theorem not_splitsExactly_slashHost :
    ¬ SplitsExactly [slashChar, slashChar, slashChar] 0 := by
  rintro ⟨parser, hostLen, hparser, htype, -⟩
  have hhost : (construct [slashChar, slashChar, slashChar] 0).map (·.1.pathType) = some .host := rfl
  rw [hparser, Option.map_some, Option.some.injEq] at hhost
  obtain ⟨loc, hnames, hstr, hloc⟩ | ⟨-, hinvalid⟩ := (htype .host).mp hhost
  · cases loc with
    | host h =>
      have hname : h = [slashChar] := by simpa [Locator.write, cString, slashChar] using hstr.symm
      rw [hname] at hnames
      exact hnames.2.2 (List.mem_singleton_self _)
    | hostServer | resource | pathOnly => exact absurd hloc (by simp [Locator.type])
  · exact absurd hinvalid (by decide)

end KscPathParser
end Parts

end AcpltKs
