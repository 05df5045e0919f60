import DataSegment.Text.White
import DataSegment.Text.Numeral
import DataSegment.Text.Latin
import DataSegment.Text.Unicode
import DataSegment.Names
import DataSegment.Width
import DataSegment.Listing.Word
import DataSegment.Listing.Literal
import DataSegment.Listing.Quoted
import DataSegment.Assembly.Line
import DataSegment.Header.Database
import DataSegment.Suppression
import DataSegment.Conversion.Session
import DataSegment.Main
import DataSegment.Proofs.Text.Numeral
import DataSegment.Proofs.Text.Lines
import DataSegment.Proofs.Text.Parts
import DataSegment.Proofs.Text.Words
import DataSegment.Proofs.Text.Spacing
import DataSegment.Proofs.Results
import DataSegment.Proofs.Assembly.StringContent
import DataSegment.Proofs.Assembly.WideDigits
import DataSegment.Proofs.Assembly.Layout
import DataSegment.Proofs.Listing.Written
import DataSegment.Proofs.Listing.Literal
import DataSegment.Proofs.Listing.Repeated
import DataSegment.Proofs.Listing.Form
import DataSegment.Proofs.Header.Scan
import DataSegment.Proofs.Header.Nesting
import DataSegment.Proofs.Header.Fragment
import DataSegment.Proofs.Header.Parameters
import DataSegment.Proofs.Header.RoundTrip
import DataSegment.Proofs.Header.Sequence
import DataSegment.Proofs.Header.Concatenation
import DataSegment.Proofs.Files.Places
import DataSegment.Proofs.Header.Inclusion
import DataSegment.Proofs.Conversion.Strings
import DataSegment.Proofs.Conversion.Values
import DataSegment.Proofs.Conversion.Segments
import DataSegment.Proofs.Conversion.Translation
import DataSegment.Proofs.Conversion.Locality
import DataSegment.Proofs.Conversion.References
import DataSegment.Proofs.Conversion.Registry
import DataSegment.Proofs.Conversion.Accounting
import DataSegment.Proofs.Conversion.Declarations
import DataSegment.Proofs.Conversion.Literals
import DataSegment.Proofs.Conversion.Safety
import DataSegment.Proofs.CommandLine.Arguments
import DataSegment.Proofs.CommandLine.Run
import DataSegment.Proofs.Listing.Line
import DataSegment.Proofs.Assembly.Letters
import DataSegment.Proofs.Conversion.Edits
import DataSegment.Proofs.Conversion.Letters
import DataSegment.Proofs.Text.Latin
import DataSegment.Proofs.Conversion.Composition
import DataSegment.Proofs.Conversion.Prototypes
import DataSegment.Proofs.Conversion.Suppression
import DataSegment.Proofs.Conversion.Transparency
import DataSegment.Proofs.Header.Layout
import DataSegment.Proofs.Header.Respacing
import DataSegment.Proofs.Header.Balance
import DataSegment.Proofs.Header.Forms
import DataSegment.Proofs.Header.Statement
import DataSegment.Proofs.Header.Arguments
import DataSegment.Proofs.Conversion.Calls
import DataSegment.Proofs.Listing.Offsets
import DataSegment.Proofs.Conversion.ListedNames
import DataSegment.Proofs.Conversion.LongLiterals
import DataSegment.Proofs.Header.Stars
import DataSegment.Proofs.Header.Marks
import DataSegment.Proofs.Text.LastLine
import DataSegment.Proofs.Header.Comments
import DataSegment.Proofs.Header.OpenComment
import DataSegment.Proofs.Header.Starts
import DataSegment.Proofs.Listing.Quoted
import DataSegment.Proofs.Conversion.Locations
import DataSegment.Proofs.Conversion.Openings
import DataSegment.Proofs.Listing.Commas
import DataSegment.Proofs.Conversion.StrayCommas
import DataSegment.Proofs.Listing.Numbers
import DataSegment.Proofs.Conversion.ListUnion
import DataSegment.Proofs.Header.Automaton
import DataSegment.Proofs.Header.Soundness
import DataSegment.Proofs.Text.Bytes
import DataSegment.Proofs.Header.Specifiers
import DataSegment.Proofs.Header.Splitting
import DataSegment.Proofs.Header.Slices
import DataSegment.Proofs.Header.Boundaries
