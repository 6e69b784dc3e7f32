import GridFlex.Lib.Hex
import GridFlex.Market.Hardhat

/-! The calldata that `submitData` of `services/hardhat-service.ts` makes up, and what the
transaction viewer of `app/page.tsx` makes of it. -/
namespace GridFlex

/-- What `submitData` uses of ethers. `keccak256` is taken over the UTF-8 bytes of its argument. -/
structure Ethers where
  toBeHex : ℕ → String
  zeroPadValue : String → ℕ → String
  keccak256 : String → String

/-- The 64 digits of a word of 32 bytes. -/
def wordDigits (n : ℕ) : String := String.ofList (Hex.text 64 n)

/-- A word padded to 32 bytes prints as its 64 digits. -/
def Ethers.Pads (ethers : Ethers) : Prop :=
  ∀ n < 2 ^ 256, ethers.zeroPadValue (ethers.toBeHex n) 32 = "0x" ++ wordDigits n

/-- `s.slice(start)`. -/
def sliceFrom (s : String) (start : ℕ) : String := String.ofList (s.toList.drop start)

/-- `s.slice(start, stop)`. -/
def slice (s : String) (start stop : ℕ) : String :=
  String.ofList ((s.toList.take stop).drop start)

/-- What `submitData` reads of the service and of the node. The address is set from the
constructor on, but there is no contract before there is a wallet to connect it with. -/
structure HardhatBlockchainService where
  /-- The account that the contract is connected with. -/
  fheDataCollectorContract : Option String
  fheDataCollectorAddress : String
  collecting : Bool
  accountAddress : ℕ → String

/-- `now` is the reading of `Date.now()` in the hash. -/
def HardhatBlockchainService.submitData (service : HardhatBlockchainService) (ethers : Ethers)
    (now price quantity : ℕ) (participantId : String) : Except String BlockchainTransaction :=
  match service.fheDataCollectorContract, participantAccountMap participantId with
  | none, _ => .error "FHEDataCollector contract not available"
  | some _, none => .error ("Unknown participant ID: " ++ participantId)
  | some _, some accountIndex =>
      if service.collecting then
        let mockEncryptedPrice := ethers.zeroPadValue (ethers.toBeHex price) 32
        let mockEncryptedQuantity := ethers.zeroPadValue (ethers.toBeHex quantity) 32
        .ok
          { hash := ethers.keccak256 ("mock-" ++ participantId ++ "-" ++ toString now)
            fromAddress := service.accountAddress accountIndex
            toAddress := service.fheDataCollectorAddress
            value := "0"
            gasUsed := "150000"
            gasPrice := "0"
            -- `mockProof` stays unused: there is no word for either proof
            data := "0xa62953f3" ++ sliceFrom mockEncryptedPrice 2 ++
              sliceFrom mockEncryptedQuantity 2
            blockNumber := some 1
            status := .confirmed }
      else .error "Data collection is not active. Please start collection first."

/-- `functionMap[functionSelector]`, or its replacement. The object also finds `toString`, which it
inherits. -/
def functionName (functionSelector : String) : String :=
  match functionSelector with
  | "a62953f3" => "submitData(bytes32,bytes,bytes32,bytes)"
  | "085a1daa" => "startCollection()"
  | "2efa7ebe" => "endCollection()"
  | "bf4cbd06" => "getCollectedData()"
  | "5dccc90d" => "storeEvent(string,string,string)"
  | "8c5be1e5" => "approve(address,uint256)"
  | "095ea7b3" => "approve(address,uint256)"
  | "a9059cbb" => "transfer(address,uint256)"
  | "23b872dd" => "transferFrom(address,address,uint256)"
  | "toString" => "function toString() \x7b [native code] \x7d"
  | _ => "Unknown function (" ++ functionSelector ++ ")"

/-- The text that the viewer shows for a call of `submitData`. -/
def submissionText (encryptedPrice priceProof encryptedQuantity quantityProof : String) : String :=
  functionName "a62953f3" ++ "\nParameters:\n  encryptedPrice: " ++ encryptedPrice ++
    "\n  priceProof: " ++ priceProof ++ "\n  encryptedQuantity: " ++ encryptedQuantity ++
    "\n  quantityProof: " ++ quantityProof

def decodeTransactionData (data : String) : String :=
  let cleanData := if "0x".toList.isPrefixOf data.toList then sliceFrom data 2 else data
  if cleanData.length ≥ 8 then
    let functionSelector := slice cleanData 0 8
    if functionSelector = "a62953f3" then
      submissionText (slice cleanData 8 72) (slice cleanData 72 136) (slice cleanData 136 200)
        (slice cleanData 200 264)
    else if functionSelector = "085a1daa" then
      functionName functionSelector ++ "\nParameters: none"
    else if functionSelector = "2efa7ebe" then
      functionName functionSelector ++ "\nParameters: none"
    else if functionSelector = "bf4cbd06" then
      functionName functionSelector ++ "\nParameters: none"
    else functionName functionSelector ++ "\nRaw data: " ++ data
  else "Raw data: " ++ data

/-- The viewer shows the digits of the price as the encrypted price and those of the quantity as
the encrypted quantity. -/
def ShowsSubmission (price quantity : ℕ) (data : String) : Prop :=
  ∃ priceProof quantityProof, decodeTransactionData data =
    submissionText (wordDigits price) priceProof (wordDigits quantity) quantityProof

theorem wordDigits_length {n : ℕ} (h : n < 2 ^ 256) : (wordDigits n).toList.length = 64 := by
  rw [wordDigits, String.toList_ofList]
  exact Hex.text_length (by simpa using h)

theorem slice_append (front middle rear : List Char) :
    slice (String.ofList (front ++ (middle ++ rear))) front.length
      (front.length + middle.length) = String.ofList middle := by
  simp [slice, List.take_append]

theorem slice_beyond {s : String} {start stop : ℕ} (h : s.toList.length ≤ start) :
    slice s start stop = "" := by
  have hdrop : (s.toList.take stop).drop start = [] := by
    rw [List.drop_eq_nil_iff, List.length_take]
    omega
  rw [slice, hdrop]

/-- The calldata of a submission: the selector and two words. -/
theorem submitData_data {service : HardhatBlockchainService} {ethers : Ethers} (h : ethers.Pads)
    {now price quantity : ℕ} {participantId : String} {tx : BlockchainTransaction}
    (hprice : price < 2 ^ 256) (hquantity : quantity < 2 ^ 256)
    (htx : service.submitData ethers now price quantity participantId = .ok tx) :
    tx.data = "0xa62953f3" ++ wordDigits price ++ wordDigits quantity := by
  have hslice (n : ℕ) : sliceFrom ("0x" ++ wordDigits n) 2 = wordDigits n := by
    simp [sliceFrom]
  unfold HardhatBlockchainService.submitData at htx
  split at htx
  · cases htx
  · cases htx
  · split at htx
    · cases htx
      simp only [h price hprice, h quantity hquantity, hslice]
    · cases htx

/-- The viewer reads four words, so that the second word passes for the proof of the first and
nothing is left for the quantity. -/
theorem decodeTransactionData_submission {price quantity : ℕ} (hprice : price < 2 ^ 256)
    (hquantity : quantity < 2 ^ 256) :
    decodeTransactionData ("0xa62953f3" ++ wordDigits price ++ wordDigits quantity) =
      submissionText (wordDigits price) (wordDigits quantity) "" "" := by
  let selector := "a62953f3".toList
  let first := Hex.text 64 price
  let second := Hex.text 64 quantity
  have hfirst : first.length = 64 := Hex.text_length (by simpa using hprice)
  have hsecond : second.length = 64 := Hex.text_length (by simpa using hquantity)
  have hdata : ("0xa62953f3" ++ wordDigits price ++ wordDigits quantity).toList =
      '0' :: 'x' :: (selector ++ (first ++ second)) := by
    simp [wordDigits, selector, first, second]
  have hclean : sliceFrom ("0xa62953f3" ++ wordDigits price ++ wordDigits quantity) 2 =
      String.ofList (selector ++ (first ++ second)) := by
    rw [sliceFrom, hdata]
    rfl
  have hlength : (selector ++ (first ++ second)).length = 136 := by
    rw [List.length_append, List.length_append, hfirst, hsecond]
    rfl
  have hselector : slice (String.ofList (selector ++ (first ++ second))) 0 8 = "a62953f3" :=
    slice_append [] selector (first ++ second)
  have hprice' : slice (String.ofList (selector ++ (first ++ second))) 8 72 =
      wordDigits price := by
    have h := slice_append selector first second
    rw [hfirst] at h
    exact h
  have hquantity' : slice (String.ofList (selector ++ (first ++ second))) 72 136 =
      wordDigits quantity := by
    have h := slice_append (selector ++ first) second []
    rw [List.length_append, hfirst, hsecond, List.append_nil, List.append_assoc] at h
    exact h
  have hbeyond (start stop : ℕ) (hstart : 136 ≤ start) :
      slice (String.ofList (selector ++ (first ++ second))) start stop = "" := by
    apply slice_beyond
    rw [String.toList_ofList, hlength]
    exact hstart
  have hprefix : "0x".toList.isPrefixOf
      ("0xa62953f3" ++ wordDigits price ++ wordDigits quantity).toList = true := by
    rw [hdata]
    rfl
  have hlong : (String.ofList (selector ++ (first ++ second))).length ≥ 8 := by
    rw [String.length_ofList, hlength]
    omega
  simp only [decodeTransactionData, hprefix, ↓reduceIte, hclean, hlong, hselector, hprice',
    hquantity', hbeyond 136 200 le_rfl, hbeyond 200 264 (by omega)]

theorem newline_not_mem_wordDigits (n : ℕ) : '\n' ∉ (wordDigits n).toList := by
  intro h
  rw [wordDigits, String.toList_ofList] at h
  obtain ⟨d, hd, he⟩ := Hex.mem_text h
  have hne : ∀ d < 16, '\n' ≠ Nat.digitChar d := by decide
  exact hne d hd he

/-- With the quantity in the place of the proof there is no text left to show it in its own. -/
theorem submissionText_ne {price quantity : ℕ} (hquantity : quantity < 2 ^ 256)
    (priceProof quantityProof : String) :
    submissionText (wordDigits price) (wordDigits quantity) "" "" ≠
      submissionText (wordDigits price) priceProof (wordDigits quantity) quantityProof := by
  intro h
  have hlist := congrArg String.toList h
  simp only [submissionText, String.toList_append, List.append_assoc,
    List.append_cancel_left_eq, String.toList_empty, List.append_nil] at hlist
  have hlength := congrArg List.length hlist
  simp only [List.length_append] at hlength
  have hproof : priceProof.toList = [] := List.length_eq_zero_iff.mp (by omega)
  rw [hproof, List.nil_append] at hlist
  have hdigits := wordDigits_length hquantity
  have hnewline := newline_not_mem_wordDigits quantity
  -- the digits would begin with the line break before the next label
  cases hd : (wordDigits quantity).toList with
  | nil =>
    rw [hd] at hdigits
    exact absurd hdigits (by decide)
  | cons d digits =>
    rw [hd] at hlist hnewline
    have hhead : d = '\n' := (List.cons.inj hlist).1
    exact hnewline (hhead ▸ List.mem_cons_self)

/-- The viewer shows the price, and the quantity as its proof. -/
theorem submission_shown {service : HardhatBlockchainService} {ethers : Ethers} (h : ethers.Pads)
    {now price quantity : ℕ} {participantId : String} {tx : BlockchainTransaction}
    (hprice : price < 2 ^ 256) (hquantity : quantity < 2 ^ 256)
    (htx : service.submitData ethers now price quantity participantId = .ok tx) :
    decodeTransactionData tx.data =
      submissionText (wordDigits price) (wordDigits quantity) "" "" := by
  rw [submitData_data h hprice hquantity htx]
  exact decodeTransactionData_submission hprice hquantity

theorem not_showsSubmission {price quantity : ℕ} {data : String} (hquantity : quantity < 2 ^ 256)
    (h : decodeTransactionData data =
      submissionText (wordDigits price) (wordDigits quantity) "" "") :
    ¬ShowsSubmission price quantity data := by
  rintro ⟨priceProof, quantityProof, hshown⟩
  rw [h] at hshown
  exact submissionText_ne hquantity priceProof quantityProof hshown

/-- The calldata itself loses nothing: it fixes the price and the quantity. -/
theorem submitData_data_injective {service service' : HardhatBlockchainService} {ethers : Ethers}
    (h : ethers.Pads) {now now' price price' quantity quantity' : ℕ}
    {participantId participantId' : String} {tx tx' : BlockchainTransaction}
    (hprice : price < 2 ^ 256) (hprice' : price' < 2 ^ 256) (hquantity : quantity < 2 ^ 256)
    (hquantity' : quantity' < 2 ^ 256)
    (htx : service.submitData ethers now price quantity participantId = .ok tx)
    (htx' : service'.submitData ethers now' price' quantity' participantId' = .ok tx')
    (hdata : tx.data = tx'.data) : price = price' ∧ quantity = quantity' := by
  rw [submitData_data h hprice hquantity htx, submitData_data h hprice' hquantity' htx'] at hdata
  have hlist := congrArg String.toList hdata
  simp only [String.toList_append, List.append_assoc, List.append_cancel_left_eq] at hlist
  obtain ⟨hfirst, hsecond⟩ := List.append_inj hlist
    ((wordDigits_length hprice).trans (wordDigits_length hprice').symm)
  simp only [wordDigits, String.toList_ofList] at hfirst hsecond
  exact ⟨Hex.text_injective 64 hfirst, Hex.text_injective 64 hsecond⟩

/-- The quantity of a submission is never shown as such. -/
theorem viewer_never_shows_quantity (ethers : Ethers) (hethers : ethers.Pads)
    (service : HardhatBlockchainService) (now price quantity : ℕ) (participantId : String)
    (hprice : price < 2 ^ 256) (hquantity : quantity < 2 ^ 256) (tx : BlockchainTransaction)
    (htx : service.submitData ethers now price quantity participantId = .ok tx) :
    ¬ShowsSubmission price quantity tx.data :=
  not_showsSubmission hquantity (submission_shown hethers hprice hquantity htx)

/-- The transaction that the controller is given is the one that `submitData` makes up. -/
theorem submitData_served {hardhat : Hardhat} {g : Gateway} {service : HardhatBlockchainService}
    {ethers : Ethers} {now price quantity : ℕ} {participantId : String}
    {tx : BlockchainTransaction} (hcollecting : service.collecting = g.chain.collector.collecting)
    (hprice : hardhat.encodes price = true) (hquantity : hardhat.encodes quantity = true)
    (htx : service.submitData ethers now price quantity participantId = .ok tx) :
    (hardhat.submitData (.confirms tx) g price quantity participantId).2 = .transaction tx := by
  unfold HardhatBlockchainService.submitData at htx
  unfold Hardhat.submitData
  split at htx
  · cases htx
  · cases htx
  · next hid =>
    split at htx
    · next hopen =>
      rw [hcollecting] at hopen
      simp only [hid, hopen, hprice, hquantity, Bool.and_self, ↓reduceIte]
    · cases htx

/-- An even number of digits, and at least two. -/
def evenHexEthers : Ethers where
  toBeHex n := "0x" ++ String.ofList (Hex.text (2 * max 1 (Nat.digits 256 n).length) n)
  zeroPadValue data length :=
    "0x" ++ String.ofList ((data.toList.drop 2).leftpad (2 * length) '0')
  keccak256 text := text

theorem evenHexEthers_pads : evenHexEthers.Pads := by
  intro n hn
  have hbytes : (Nat.digits 256 n).length ≤ 32 := by
    rw [Nat.digits_length_le_iff (by decide)]
    exact hn.trans_eq (by norm_num)
  have hwidth : 2 * max 1 (Nat.digits 256 n).length ≤ 2 * 32 := by omega
  have hdrop (digits : List Char) : ("0x".toList ++ digits).drop 2 = digits := rfl
  simp only [evenHexEthers, String.toList_append, String.toList_ofList, hdrop,
    Hex.leftpad_text hwidth, wordDigits, Nat.reduceMul]

def hardhatNode : HardhatBlockchainService := ⟨some "0", "0xcollector", true, toString⟩

def smallSubmission : BlockchainTransaction where
  hash := "mock-participant-1-0"
  fromAddress := "1"
  toAddress := "0xcollector"
  value := "0"
  gasUsed := "150000"
  gasPrice := "0"
  data := "0xa62953f3" ++ wordDigits 10 ++ wordDigits 50
  blockNumber := some 1
  status := .confirmed

theorem smallSubmission_submitted :
    hardhatNode.submitData evenHexEthers 0 10 50 "participant-1" = .ok smallSubmission := by
  decide +kernel

/-- A submission of 50 MW at 10 EUR/MW. -/
theorem smallSubmission_not_shown : ¬ShowsSubmission 10 50 smallSubmission.data :=
  viewer_never_shows_quantity evenHexEthers evenHexEthers_pads hardhatNode 0 10 50
    "participant-1" (by norm_num) (by norm_num) smallSubmission smallSubmission_submitted

/-- The round trip fails on it: the digits of the quantity are shown as the proof of the price. -/
theorem smallSubmission_round_trip_fails :
    evenHexEthers.Pads ∧
      hardhatNode.submitData evenHexEthers 0 10 50 "participant-1" = .ok smallSubmission ∧
      decodeTransactionData smallSubmission.data =
        submissionText (wordDigits 10) (wordDigits 50) "" "" ∧
      ¬ShowsSubmission 10 50 smallSubmission.data := by
  have hshown : decodeTransactionData smallSubmission.data =
      submissionText (wordDigits 10) (wordDigits 50) "" "" :=
    decodeTransactionData_submission (by norm_num) (by norm_num)
  exact ⟨evenHexEthers_pads, smallSubmission_submitted, hshown,
    not_showsSubmission (by norm_num) hshown⟩

end GridFlex
