import TokenMint.BigEndian.Buffer
import TokenMint.Hex.Buffer
import TokenMint.Options.FromEnvironment
import TokenMint.Options.Pool
import TokenMint.Proofs.Acceptance
import TokenMint.Proofs.Accounts
import TokenMint.Proofs.Ageing
import TokenMint.Proofs.Decimal
import TokenMint.Proofs.Delivery
import TokenMint.Proofs.EntryPoints
import TokenMint.Proofs.Expiry
import TokenMint.Proofs.Failures
import TokenMint.Proofs.FatalEntries
import TokenMint.Proofs.Fields
import TokenMint.Proofs.HexBuffers
import TokenMint.Proofs.HexGrammar
import TokenMint.Proofs.HybridClock
import TokenMint.Proofs.Increase
import TokenMint.Proofs.Interleaving
import TokenMint.Proofs.KernelProtocol
import TokenMint.Proofs.KernelTime
import TokenMint.Proofs.LogLines
import TokenMint.Proofs.OptionHistories
import TokenMint.Proofs.Randomness
import TokenMint.Proofs.Rounds
import TokenMint.Proofs.StatusText
import TokenMint.Proofs.TargetCalls
import TokenMint.Proofs.TextForm
import TokenMint.Proofs.TokenOrder
import TokenMint.Proofs.Tolerance
import TokenMint.Proofs.UseCounts
import TokenMint.Proofs.Validation
import TokenMint.Proofs.Warnings
import TokenMint.Proofs.WireOrder
import TokenMint.Proofs.WordArithmetic
import TokenMint.Token.Age
import TokenMint.Validator
