import LineCensus.Main
import LineCensus.Proofs.RunCounts
import LineCensus.Proofs.Shrinking
import LineCensus.Proofs.BraceScan
import LineCensus.Proofs.TripleQuotes
import LineCensus.Proofs.BlankLines
import LineCensus.Proofs.Accounting
import LineCensus.Proofs.TextAndBytes
import LineCensus.Proofs.FrontsAndTails
import LineCensus.Proofs.Spellings
import LineCensus.Proofs.Walks
import LineCensus.Proofs.Roots
import LineCensus.Proofs.FilesOnce
import LineCensus.Proofs.GivenPaths
import LineCensus.Proofs.Subparts
import LineCensus.Proofs.BeginEndBlocks
import LineCensus.Proofs.Balance
import LineCensus.Proofs.Sums
import LineCensus.Proofs.CsvReading
import LineCensus.Proofs.Markup
import LineCensus.Proofs.JsonReading
import LineCensus.Proofs.Delivery
import LineCensus.Proofs.LiteralBodies
import LineCensus.Proofs.Masks
import LineCensus.Proofs.BlockLines
import LineCensus.Proofs.BlankEnds
import LineCensus.Proofs.OutsideLiterals
import LineCensus.Proofs.LineComments
import LineCensus.Proofs.Unmarked
import LineCensus.Proofs.Restripping
import LineCensus.Proofs.Registering
import LineCensus.Proofs.Alignment
