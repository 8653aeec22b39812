import Pippin.Kernel.Fat32Safety

/-! What the FAT32 reader finds on a disk that answers every read: the volume is read as
chains of clusters, the directory as the rows of a chain, the file as its first bytes. -/

namespace Pippin.File
open Program

def Disk.ofImage (image : UInt64 → Sector) : Disk := ⟨fun _ lba => some (image lba)⟩

/-! ## The volume -/

section Chain

variable (fat : Fat32) (image : UInt64 → Sector)

def nextCluster (cluster : UInt32) : Option UInt32 := do
  let byte ← checkedMul32 cluster 4
  if byte / 512 ≥ fat.fatSize then none
  else Fat32.linkAt (image (fat.reserved + byte / 512).toUInt64) (byte % 512).toNat

/-- The first clusters of a chain, at most `n`; it ends where a cluster is not valid. -/
def chain : Nat → UInt32 → List UInt32
  | 0, _ => []
  | n + 1, cluster =>
    if (fat.firstSector cluster).isNone then []
    else cluster :: (match nextCluster fat image cluster with
      | some cluster' => chain n cluster'
      | none => [])

def sectorBytes (first : UInt64) (is : List Nat) : List UInt8 :=
  is.flatMap fun i => (image (first + UInt64.ofNat i)).bytes

def clusterBytes (cluster : UInt32) : List UInt8 :=
  match fat.firstSector cluster with
  | some first => sectorBytes image first (List.range fat.sectorsPerCluster.toNat)
  | none => []

def chainBytes (n : Nat) (cluster : UInt32) : List UInt8 :=
  (chain fat image n cluster).flatMap (clusterBytes fat image)

end Chain

def isHello (row : List UInt8) : Bool :=
  byteAt row 0 != 0xe5 && byteAt row 11 &&& 0x18 == 0 && row.take 11 == helloPip

def helloEntry (directory : List UInt8) : Option (UInt32 × Nat) :=
  (((rows directory).takeWhile fun row => byteAt row 0 != 0).find? isHello).map fun row =>
    ((le16 row 20).toUInt32 <<< 16 ||| (le16 row 26).toUInt32, (le32 row 28).toNat)

variable {fat : Fat32} {image : UInt64 → Sector}

theorem sectorBytes_cons (first : UInt64) (i : Nat) (is : List Nat) : sectorBytes image first (i :: is) =
    (image (first + UInt64.ofNat i)).bytes ++ sectorBytes image first is := rfl

theorem length_sectorBytes (first : UInt64) (is : List Nat) :
    (sectorBytes image first is).length = 512 * is.length := by
  induction is with
  | nil => rfl
  | cons i is ih =>
    rw [sectorBytes_cons, List.length_append, ih, (image _).length, List.length_cons]
    omega

theorem chainBytes_of_none (n : Nat) {cluster : UInt32} (h : fat.firstSector cluster = none) :
    chainBytes fat image n cluster = [] := by
  unfold chainBytes
  cases n with
  | zero => rfl
  | succ n =>
    rw [chain, h]
    rfl

theorem chainBytes_succ (n : Nat) {cluster : UInt32} {first : UInt64} (h : fat.firstSector cluster = some first) :
    chainBytes fat image (n + 1) cluster = sectorBytes image first (List.range fat.sectorsPerCluster.toNat) ++
      (match nextCluster fat image cluster with
      | some cluster' => chainBytes fat image n cluster'
      | none => []) := by
  have hcluster : clusterBytes fat image cluster =
      sectorBytes image first (List.range fat.sectorsPerCluster.toNat) := by
    rw [clusterBytes, h]
  unfold chainBytes
  rw [chain, h, Option.isNone_some, if_neg Bool.false_ne_true, List.flatMap_cons, hcluster]
  cases nextCluster fat image cluster <;> rfl

theorem chainBytes_prefix (image : UInt64 → Sector) (hspc : 0 < fat.sectorsPerCluster.toNat) {n m : Nat}
    (h : n ≤ m) (cluster : UInt32) :
    chainBytes fat image n cluster <+: chainBytes fat image m cluster ∧
      (n ≤ (chainBytes fat image n cluster).length ∨
        chainBytes fat image m cluster = chainBytes fat image n cluster) := by
  induction n generalizing m cluster with
  | zero => exact ⟨List.nil_prefix, Or.inl (Nat.zero_le _)⟩
  | succ n ih =>
    cases m with
    | zero => omega
    | succ m =>
      cases hfirst : fat.firstSector cluster with
      | none =>
        rw [chainBytes_of_none _ hfirst, chainBytes_of_none _ hfirst]
        exact ⟨List.prefix_rfl, Or.inr rfl⟩
      | some first =>
        rw [chainBytes_succ n hfirst, chainBytes_succ m hfirst]
        cases nextCluster fat image cluster with
        | none => exact ⟨List.prefix_rfl, Or.inr rfl⟩
        | some cluster' =>
          obtain ⟨hpre, hlen⟩ := ih (Nat.le_of_succ_le_succ h) cluster'
          dsimp only
          refine ⟨(List.prefix_append_right_inj _).mpr hpre, hlen.imp (fun hle => ?_) fun he => ?_⟩
          · rw [List.length_append, length_sectorBytes, List.length_range]
            omega
          · rw [he]

/-! ## The directory -/

theorem rows_nil : rows [] = [] := by
  rw [rows, List.length_nil, Nat.zero_div]
  rfl

theorem rows_append {a b : List UInt8} (h : a.length % 32 = 0) : rows (a ++ b) = rows a ++ rows b := by
  obtain ⟨k, hk⟩ : ∃ k, a.length = 32 * k := ⟨a.length / 32, by omega⟩
  have hlen : (a ++ b).length / 32 = k + b.length / 32 := by
    rw [List.length_append, hk]
    omega
  have hfirst : a.length / 32 = k := by omega
  unfold rows
  rw [hlen, hfirst, List.range_add, List.map_append, List.map_map]
  congr 1
  · apply List.map_congr_left
    intro i hi
    have hi' := List.mem_range.mp hi
    rw [List.drop_append_of_le_length (by omega), List.take_append_of_le_length]
    rw [List.length_drop]
    omega
  · apply List.map_congr_left
    intro i _
    rw [Function.comp, List.drop_append, List.drop_eq_nil_of_le (by omega), List.nil_append]
    congr 2
    omega

theorem scanRows_append (as bs : List (List UInt8)) : scanRows (as ++ bs) =
    match scanRows as with
    | .more => scanRows bs
    | r => r := by
  induction as with
  | nil => rfl
  | cons a as ih =>
    rw [List.cons_append, scanRows, scanRows]
    cases scanRow a with
    | stop => rfl
    | found start size => rfl
    | more => exact ih

theorem isHello_iff (row : List UInt8) : isHello row = true ↔
    byteAt row 0 ≠ 0xe5 ∧ byteAt row 11 &&& 0x18 = 0 ∧ row.take 11 = helloPip := by
  simp only [isHello, Bool.and_eq_true, bne_iff_ne, beq_iff_eq, and_assoc]

theorem scanRow_eq (row : List UInt8) : scanRow row =
    if byteAt row 0 = 0 then .stop
    else if isHello row then .found ((le16 row 20).toUInt32 <<< 16 ||| (le16 row 26).toUInt32) (le32 row 28).toNat
    else .more := by
  have hlong : byteAt row 11 = 0x0f → byteAt row 11 &&& 0x18 ≠ 0 := fun h => by
    rw [h]
    decide
  unfold scanRow
  by_cases h0 : byteAt row 0 = 0
  · rw [if_pos h0, if_pos h0]
  rw [if_neg h0, if_neg h0]
  by_cases hskip : byteAt row 0 = 0xe5 ∨ byteAt row 11 = 0x0f ∨ byteAt row 11 &&& 0x18 ≠ 0
  · rw [if_pos hskip, if_neg]
    rw [isHello_iff]
    rintro ⟨hlive, hattr, -⟩
    rcases hskip with h | h | h
    · exact hlive h
    · exact hlong h hattr
    · exact h hattr
  · rw [if_neg hskip]
    simp only [not_or, not_not] at hskip
    simp only [isHello_iff, hskip, ne_eq, not_false_eq_true, true_and]

theorem scanRows_found (rs : List (List UInt8)) (start : UInt32) (size : Nat) : scanRows rs = .found start size ↔
    (((rs.takeWhile fun row => byteAt row 0 != 0).find? isHello).map fun row =>
      ((le16 row 20).toUInt32 <<< 16 ||| (le16 row 26).toUInt32, (le32 row 28).toNat)) = some (start, size) := by
  induction rs with
  | nil => exact ⟨nofun, nofun⟩
  | cons row rs ih =>
    rw [scanRows, scanRow_eq]
    by_cases h0 : byteAt row 0 = 0
    · rw [if_pos h0, List.takeWhile_cons_of_neg (by simp [h0])]
      exact ⟨nofun, nofun⟩
    rw [if_neg h0, List.takeWhile_cons_of_pos (by simp [h0])]
    by_cases hh : isHello row = true
    · rw [if_pos hh, List.find?_cons_of_pos hh, Option.map_some, Option.some.injEq, Prod.mk.injEq]
      exact Scan.found.injEq _ _ _ _ ▸ Iff.rfl
    · rw [if_neg hh, List.find?_cons_of_neg hh]
      exact ih

/-! ## Runs -/

def Holds (b : Memory) (s : Io) : Prop := s.bundle = b

variable {b : Memory}

theorem readSector_yields (site : Site) (lba : UInt64) :
    Yields (Disk.ofImage image) (Holds b) (readSector site lba) (.returned (image lba)) (Holds b) :=
  fun _ hs => ⟨rfl, hs⟩

theorem copyToBundle_yields (start : Nat) (bytes : List UInt8) :
    Yields (Disk.ofImage image) (Holds b) (copyToBundle start bytes) (.returned ()) (Holds (b.write start bytes)) :=
  fun _ hs => ⟨rfl, congrArg (fun m : Memory => m.write start bytes) hs⟩

theorem next_yields (cluster : UInt32) :
    Yields (Disk.ofImage image) (Holds b) (fat.next cluster) (Outcome.ofOption (nextCluster fat image cluster))
      (Holds b) := by
  unfold Fat32.next nextCluster
  cases hbyte : checkedMul32 cluster 4 with
  | none => exact Yields.bind_gaveUp Yields.giveUp fun s hs => ⟨rfl, hs⟩
  | some byte =>
    refine Yields.bind (Yields.pure byte) ?_
    rw [Option.bind_eq_bind, Option.bind_some]
    split_ifs with h
    · exact Yields.giveUp
    · exact Yields.bind (readSector_yields _ _) (Yields.ofOption _)

def scanOutcome : Scan → Outcome (Option (UInt32 × Nat))
  | .stop => .gaveUp
  | .found start size => .returned (some (start, size))
  | .more => .returned none

theorem scanSectors_yields (first : UInt64) (is : List Nat) :
    Yields (Disk.ofImage image) (Holds b) (scanSectors first is)
      (scanOutcome (scanRows (rows (sectorBytes image first is)))) (Holds b) := by
  induction is with
  | nil =>
    have hnil : sectorBytes image first [] = [] := rfl
    rw [hnil, rows_nil]
    exact Yields.pure none
  | cons i is ih =>
    have hlen : (image (first + UInt64.ofNat i)).bytes.length % 32 = 0 := by
      rw [(image _).length]
    rw [sectorBytes_cons, rows_append hlen, scanRows_append]
    unfold scanSectors
    refine Yields.bind (readSector_yields _ _) ?_
    cases scanRows (rows (image (first + UInt64.ofNat i)).bytes) with
    | stop => exact Yields.giveUp
    | found start size => exact Yields.pure _
    | more => exact ih

def entryOutcome : Scan → Outcome (UInt32 × Nat)
  | .found start size => .returned (start, size)
  | _ => .gaveUp

theorem findEntry_yields (n : Nat) (cluster : UInt32) :
    Yields (Disk.ofImage image) (Holds b) (findEntry fat n cluster)
      (entryOutcome (scanRows (rows (chainBytes fat image n cluster)))) (Holds b) := by
  -- on the clusters that may still be read
  induction n generalizing cluster with
  | zero =>
    have hnil : chainBytes fat image 0 cluster = [] := rfl
    rw [hnil, rows_nil]
    exact Yields.giveUp
  | succ n ih =>
    unfold findEntry
    cases hfirst : fat.firstSector cluster with
    | none =>
      rw [chainBytes_of_none _ hfirst, rows_nil]
      exact Yields.bind_gaveUp Yields.giveUp fun s hs => ⟨rfl, hs⟩
    | some first =>
      have hlen : (sectorBytes image first (List.range fat.sectorsPerCluster.toNat)).length % 32 = 0 := by
        rw [length_sectorBytes]
        omega
      rw [chainBytes_succ n hfirst, rows_append hlen, scanRows_append]
      refine Yields.bind (Yields.pure first) ?_
      have hscan : Yields (Disk.ofImage image) (Holds b) _ _ _ :=
        scanSectors_yields first (List.range fat.sectorsPerCluster.toNat)
      cases hs : scanRows (rows (sectorBytes image first (List.range fat.sectorsPerCluster.toNat))) with
      | stop =>
        rw [hs] at hscan
        exact Yields.bind_gaveUp hscan fun s hs => ⟨rfl, hs⟩
      | found start size =>
        rw [hs] at hscan
        exact Yields.bind hscan (Yields.pure _)
      | more =>
        rw [hs] at hscan
        refine Yields.bind hscan ?_
        have hnext : Yields (Disk.ofImage image) (Holds b) (fat.next cluster) _ _ := next_yields cluster
        cases hlink : nextCluster fat image cluster with
        | none =>
          rw [hlink] at hnext
          dsimp only
          rw [rows_nil]
          exact Yields.bind_gaveUp hnext fun s hs => ⟨rfl, hs⟩
        | some cluster' =>
          rw [hlink] at hnext
          exact Yields.bind hnext (ih cluster')

theorem copySectors_yields (first : UInt64) {size : Nat} (is : List Nat) {copied : Nat} (hlt : copied < size) :
    Yields (Disk.ofImage image) (Holds b) (copySectors first size is copied)
      (.returned (copied + min (512 * is.length) (size - copied)))
      (Holds (b.write copied ((sectorBytes image first is).take (size - copied)))) := by
  induction is generalizing b copied with
  | nil =>
    have hnil : sectorBytes image first [] = [] := rfl
    rw [hnil, List.take_nil, Memory.write_nil, List.length_nil, Nat.mul_zero, Nat.zero_min, Nat.add_zero]
    exact Yields.pure copied
  | cons i is ih =>
    have hlen := (image (first + UInt64.ofNat i)).length
    unfold copySectors
    refine Yields.bind (readSector_yields _ _) (Yields.bind (copyToBundle_yields _ _) ?_)
    dsimp only
    -- the file ends in this sector, or the sector is copied whole
    by_cases hdone : copied + min 512 (size - copied) = size
    · have hbytes : (sectorBytes image first (i :: is)).take (size - copied) =
          (image (first + UInt64.ofNat i)).bytes.take (min 512 (size - copied)) := by
        rw [sectorBytes_cons, List.take_append_of_le_length (by omega), Nat.min_eq_right (by omega)]
      have hsum : copied + min (512 * (i :: is).length) (size - copied) = copied + min 512 (size - copied) := by
        rw [List.length_cons]
        omega
      rw [if_pos hdone, hbytes, hsum]
      exact Yields.pure _
    · have hwhole : min 512 (size - copied) = 512 := by omega
      rw [if_neg hdone, hwhole, List.take_of_length_le hlen.le]
      have hrest := @ih (b.write copied (image (first + UInt64.ofNat i)).bytes) (copied + 512) (by omega)
      have hbytes : (b.write copied (image (first + UInt64.ofNat i)).bytes).write (copied + 512)
          ((sectorBytes image first is).take (size - (copied + 512))) =
          b.write copied ((sectorBytes image first (i :: is)).take (size - copied)) := by
        have happ := Memory.write_append (m := b) (a := copied) (image (first + UInt64.ofNat i)).bytes
          ((sectorBytes image first is).take (size - (copied + 512)))
        have htake : (image (first + UInt64.ofNat i)).bytes.take (size - copied) =
            (image (first + UInt64.ofNat i)).bytes := List.take_of_length_le (by omega)
        rw [hlen] at happ
        rw [happ, sectorBytes_cons, List.take_append, htake, hlen, Nat.sub_sub]
      have hsum : copied + 512 + min (512 * is.length) (size - (copied + 512)) =
          copied + min (512 * (i :: is).length) (size - copied) := by
        rw [List.length_cons]
        omega
      rw [hbytes, hsum] at hrest
      exact hrest

theorem copyFile_done {size copied : Nat} (h : ¬copied < size) (fuel : Nat) (cluster : UInt32) :
    copyFile fat size fuel cluster copied = pure () := by
  cases fuel with
  | zero => exact if_neg h
  | succ fuel => exact if_neg h

theorem copyFile_run (hspc : 0 < fat.sectorsPerCluster.toNat) {size fuel : Nat} {copied : Nat} (cluster : UInt32)
    (hfuel : size - copied ≤ fuel) :
    Triple (Disk.ofImage image) (Holds b) (copyFile fat size fuel cluster copied) fun o s =>
      if size - copied ≤ (chainBytes fat image fuel cluster).length then
        o = .returned () ∧ Holds (b.write copied ((chainBytes fat image fuel cluster).take (size - copied))) s
      else o = .gaveUp := by
  -- the induction is on the fuel, with what is copied and the buffer left open
  by_cases hlt : copied < size
  · induction fuel generalizing b cluster copied with
    | zero => omega
    | succ fuel ih =>
      unfold copyFile
      rw [if_pos hlt]
      cases hfirst : fat.firstSector cluster with
      | none =>
        rw [chainBytes_of_none _ hfirst]
        refine Yields.bind_gaveUp Yields.giveUp fun s _ => ?_
        rw [if_neg (by rw [List.length_nil]; omega)]
      | some first =>
        rw [chainBytes_succ fuel hfirst]
        refine Yields.bind (Yields.pure first) (Yields.bind (copySectors_yields first _ hlt) ?_)
        rw [List.length_range]
        have hlen : (sectorBytes image first (List.range fat.sectorsPerCluster.toNat)).length = _ :=
          length_sectorBytes first _
        rw [List.length_range] at hlen
        generalize sectorBytes image first (List.range fat.sectorsPerCluster.toNat) = data at hlen ⊢
        -- the last cluster may be copied in part, every other one is copied whole
        by_cases hmore : copied + min (512 * fat.sectorsPerCluster.toNat) (size - copied) < size
        · have hwhole : min (512 * fat.sectorsPerCluster.toNat) (size - copied) = data.length := by omega
          rw [if_pos hmore, hwhole, List.take_of_length_le (by omega)]
          have hnext : Yields (Disk.ofImage image) (Holds (b.write copied data)) (fat.next cluster) _ _ :=
            next_yields cluster
          cases hlink : nextCluster fat image cluster with
          | none =>
            rw [hlink] at hnext
            refine Yields.bind_gaveUp hnext fun s _ => ?_
            dsimp only
            rw [if_neg (by rw [List.append_nil]; omega)]
          | some cluster' =>
            rw [hlink] at hnext
            refine Yields.bind hnext (Triple.mono (ih cluster' (by omega) (by omega)) fun o s hpost => ?_)
            dsimp only
            rw [List.length_append]
            split_ifs at hpost with henough
            · rw [if_pos (by omega), List.take_append, List.take_of_length_le (by omega), Nat.sub_sub]
              rw [Memory.write_append] at hpost
              exact hpost
            · rw [if_neg (by omega)]
              exact hpost
        · have hrest : size - copied ≤ data.length := by omega
          rw [if_neg hmore]
          refine Yields.bind (Yields.pure cluster) ?_
          rw [copyFile_done hmore]
          intro s hs
          rw [if_pos (by rw [List.length_append]; omega), List.take_append_of_le_length hrest]
          exact ⟨rfl, hs⟩
  · intro s hs
    rw [copyFile_done hlt, if_pos (by omega), Nat.sub_eq_zero_of_le (Nat.not_lt.mp hlt), List.take_zero,
      Memory.write_nil]
    exact ⟨rfl, hs⟩

theorem entryOutcome_eq (directory : List UInt8) :
    entryOutcome (scanRows (rows directory)) = Outcome.ofOption (helloEntry directory) := by
  cases hentry : helloEntry directory with
  | some entry =>
    rw [(scanRows_found _ entry.1 entry.2).mpr hentry]
    rfl
  | none =>
    cases hscan : scanRows (rows directory) with
    | found start size =>
      have hsome : helloEntry directory = some (start, size) := (scanRows_found _ start size).mp hscan
      rw [hsome] at hentry
      cases hentry
    | stop => rfl
    | more => rfl

theorem mount_yields (hmount : Fat32.ofBootSector (image 0) = some fat) :
    Yields (Disk.ofImage image) (Holds b) mount (.returned fat) (Holds b) := by
  refine Yields.bind (readSector_yields .boot 0) ?_
  rw [hmount]
  exact Yields.pure fat

def fileContents (fat : Fat32) (image : UInt64 → Sector) (fuel : Nat) (entry : UInt32 × Nat) : Option (List UInt8) :=
  if (1 ≤ entry.2 ∧ entry.2 ≤ 4096) ∧ entry.2 ≤ (chainBytes fat image fuel entry.1).length then
    some ((chainBytes fat image fuel entry.1).take entry.2)
  else none

theorem loadBundle_run (hspc : 0 < fat.sectorsPerCluster.toNat) {fuel : Nat} (hfuel : 4096 ≤ fuel) :
    Triple (Disk.ofImage image) (Holds b) (loadBundle fuel fat) fun o _ => o = Outcome.ofOption
      (((helloEntry (chainBytes fat image 16 fat.root)).bind (fileContents fat image fuel)).bind parse) := by
  have hfind : Yields (Disk.ofImage image) (Holds b) (findEntry fat 16 fat.root) _ _ := findEntry_yields 16 fat.root
  rw [entryOutcome_eq] at hfind
  unfold loadBundle
  cases hentry : helloEntry (chainBytes fat image 16 fat.root) with
  | none =>
    rw [hentry] at hfind
    exact Yields.bind_gaveUp hfind fun _ _ => rfl
  | some entry =>
    rw [hentry] at hfind
    obtain ⟨start, size⟩ := entry
    refine Yields.bind hfind ?_
    rw [Option.bind_some, fileContents]
    dsimp only
    by_cases hsize : size = 0 ∨ size > 4096
    · rw [if_pos hsize, if_neg (by omega)]
      exact fun _ _ => rfl
    rw [if_neg hsize]
    have hcopy : Triple (Disk.ofImage image) (Holds b) (copyFile fat size fuel start 0) _ :=
      copyFile_run hspc start (by omega)
    rw [Nat.sub_zero] at hcopy
    -- the copy gives up exactly when the chain is shorter than the entry says
    by_cases hlen : size ≤ (chainBytes fat image fuel start).length
    · rw [if_pos ⟨by omega, hlen⟩, Option.bind_some]
      have hdata : ((chainBytes fat image fuel start).take size).length = size := by
        rw [List.length_take]
        omega
      have hcopied : Yields (Disk.ofImage image) (Holds b) (copyFile fat size fuel start 0) (.returned ())
          (Holds (b.write 0 ((chainBytes fat image fuel start).take size))) := by
        simp only [if_pos hlen] at hcopy
        exact hcopy
      refine Yields.bind hcopied fun s hs => ?_
      have hread : s.bundle.read 0 size = (chainBytes fat image fuel start).take size := by
        have hself := Memory.read_write_self (m := b) (a := 0) ((chainBytes fat image fuel start).take size)
        rw [hdata] at hself
        rw [hs, hself]
      show (ofOption (parse (s.bundle.read 0 size)) (Disk.ofImage image) s).1 = _
      rw [hread]
      cases parse ((chainBytes fat image fuel start).take size) <;> rfl
    · rw [if_neg (fun hc => hlen hc.2)]
      have hcopied : Yields (Disk.ofImage image) (Holds b) (copyFile fat size fuel start 0) .gaveUp
          fun _ => True := by
        simp only [if_neg hlen] at hcopy
        exact fun s hs => ⟨hcopy s hs, trivial⟩
      exact Yields.bind_gaveUp hcopied fun _ _ => rfl

theorem fileContents_eq (hspc : 0 < fat.sectorsPerCluster.toNat) {fuel : Nat} (hfuel : 4096 ≤ fuel) {start : UInt32}
    {n m : Nat} (hn : 1 ≤ n ∧ n ≤ 4096) (hm : n ≤ (chainBytes fat image m start).length) :
    fileContents fat image fuel (start, n) = some ((chainBytes fat image m start).take n) := by
  unfold fileContents
  dsimp only
  rcases Nat.le_total m fuel with h | h
  · obtain ⟨hpre, -⟩ := chainBytes_prefix image hspc h start
    rw [if_pos ⟨hn, hm.trans hpre.length_le⟩]
    obtain ⟨rest, hrest⟩ := hpre
    rw [← hrest, List.take_append_of_le_length hm]
  · obtain ⟨hpre, hlen⟩ := chainBytes_prefix image hspc h start
    have henough : n ≤ (chainBytes fat image fuel start).length := by
      rcases hlen with hlen | he
      · omega
      · rw [← he]
        exact hm
    rw [if_pos ⟨hn, henough⟩]
    obtain ⟨rest, hrest⟩ := hpre
    rw [← hrest, List.take_append_of_le_length henough]

/-- FAT32 file semantics: with `D` the first 16 clusters of the root chain, the first live
`HELLO.PIP` row of `D` before its end mark gives start and size; when the size is in range and
the chain provides as many bytes, these are parsed, and in every other case nothing is returned. -/
theorem fat_file_semantics (image : UInt64 → Sector) (s : Io) (hmount : Fat32.ofBootSector (image 0) = some fat)
    {fuel : Nat} (hfuel : 4096 ≤ fuel) :
    (∀ start n m, helloEntry (chainBytes fat image 16 fat.root) = some (start, n) → 1 ≤ n ∧ n ≤ 4096 →
      n ≤ (chainBytes fat image m start).length → (fatBundle fuel (Disk.ofImage image) s).1 =
        Outcome.ofOption (parse ((chainBytes fat image m start).take n))) ∧
    ((¬∃ start n m, helloEntry (chainBytes fat image 16 fat.root) = some (start, n) ∧ (1 ≤ n ∧ n ≤ 4096) ∧
      n ≤ (chainBytes fat image m start).length) → (fatBundle fuel (Disk.ofImage image) s).1 = .gaveUp) := by
  have hspc := (ofBootSector_volume hmount).cluster_pos
  have hrun := Yields.bind (mount_yields (b := s.bundle) hmount) (loadBundle_run hspc hfuel) s rfl
  rw [← fatBundle_eq] at hrun
  rw [hrun]
  refine ⟨fun start n m hentry hn hm => ?_, fun hnone => ?_⟩
  · rw [hentry, Option.bind_some, fileContents_eq hspc hfuel hn hm, Option.bind_some]
  · cases hentry : helloEntry (chainBytes fat image 16 fat.root) with
    | none => rfl
    | some entry =>
      have hshort : fileContents fat image fuel entry = none := by
        unfold fileContents
        rw [if_neg]
        exact fun hc => hnone ⟨entry.1, entry.2, fuel, hentry, hc.1, hc.2⟩
      rw [Option.bind_some, hshort]
      rfl

def Sector.padded (bytes : List UInt8) (h : bytes.length ≤ 512) : Sector where
  bytes := bytes ++ List.replicate (512 - bytes.length) 0
  length := by
    rw [List.length_append, List.length_replicate]
    omega

def helloText : List UInt8 := Str.bytes "PIPPIN-BUNDLE/1\nname=Hi\nmessage=Yo\n".toList

/-- A volume of ten sectors: FAT in sector 1, directory in sector 2, the file in sector 3. -/
def helloImage (lba : UInt64) : Sector :=
  if lba = 0 then Sector.padded (List.replicate 11 0 ++ [0, 2, 1, 1, 0, 1] ++ List.replicate 15 0 ++
    [10, 0, 0, 0, 1, 0, 0, 0] ++ List.replicate 4 0 ++ [2, 0, 0, 0] ++ List.replicate 462 0 ++ [0x55, 0xaa])
    (by decide +kernel)
  else if lba = 2 then Sector.padded (helloPip ++ [0x20] ++ List.replicate 14 0 ++ [3, 0, 35, 0, 0, 0])
    (by decide +kernel)
  else if lba = 3 then Sector.padded helloText (by decide +kernel)
  else Sector.padded [] (by decide)

theorem parse_hello : parse helloText = some ⟨"Hi".toList, "Yo".toList⟩ := by
  unfold parse helloText
  rw [Str.fromUtf8_bytes]
  decide +kernel

theorem fat_file_semantics_hello : (fatBundle 4096 (Disk.ofImage helloImage) ⟨[], fun _ => 0⟩).1 =
    .returned ⟨"Hi".toList, "Yo".toList⟩ := by
  have hmount : Fat32.ofBootSector (helloImage 0) = some ⟨1, 1, 2, 1, 2, 8⟩ := by decide +kernel
  have hentry : helloEntry (chainBytes ⟨1, 1, 2, 1, 2, 8⟩ helloImage 16 2) = some (3, 35) := by decide +kernel
  have hdata : (chainBytes ⟨1, 1, 2, 1, 2, 8⟩ helloImage 1 3).take 35 = helloText := by decide +kernel
  have hrun := (fat_file_semantics helloImage ⟨[], fun _ => 0⟩ hmount (Nat.le_refl 4096)).1 3 35 1 hentry (by decide)
    (by decide +kernel)
  rw [hdata, parse_hello] at hrun
  exact hrun

end Pippin.File
