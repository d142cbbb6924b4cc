import Bond.Lib.Decoder
import Bond.Lib.Varint
import Bond.Lib.Machine
import Bond.Lib.Parsec
import Bond.Cpp.Types
import Bond.Cpp.InputBuffer
import Bond.Cpp.Encoding
import Bond.Cpp.OutputBuffer
import Bond.Cpp.TaggedProtocol
import Bond.Cpp.Skip
import Bond.Cpp.Scalars
import Bond.Cpp.FastBinary
import Bond.Cpp.WriterCalls
import Bond.Cpp.CompactBinary
import Bond.Cpp.DoublePass
import Bond.Cpp.RoundTrip
import Bond.Cpp.Schema
import Bond.Cpp.Validate
import Bond.Cpp.WireEquivalence
import Bond.Cpp.DynamicParser
import Bond.Cpp.ParserEvents
import Bond.Cpp.ParserMerge
import Bond.Cpp.ParserReports
import Bond.Cpp.ParserHierarchy
import Bond.Cpp.ParserDescent
import Bond.Cpp.ParserAgreement
import Bond.Cs.InputBuffer
import Bond.Cs.Skip
import Bond.Cs.TaggedParser
import Bond.Compiler.Types
import Bond.Compiler.Json
import Bond.Compiler.JsonRoundTrip
import Bond.Compiler.Lexer
import Bond.Compiler.Util
import Bond.Compiler.Parser
import Bond.Compiler.Accepted
import Bond.Compiler.Normal
import Bond.Compiler.SchemaDef
import Bond.Compiler.ResolveType
import Bond.Compiler.Symbols
import Bond.Compiler.ParserRuns
import Bond.Compiler.Redefinition
import Bond.Compiler.BaseTypes
import Bond.Compiler.DefaultValues
import Bond.Cpp.SimpleBinary
import Bond.Cpp.MarshaledBonded
import Bond.Cpp.StaticParser
import Bond.Cpp.StaticSkip
import Bond.Cpp.Deserializer
import Bond.Cpp.Assign
import Bond.Cpp.ContainerReads
import Bond.Cpp.StructReads
import Bond.Cpp.DeserializeExact
import Bond.Cpp.Ext.UnaryCall
import Bond.Cpp.Ext.UnaryCallData
import Bond.Cpp.Ext.CappedAllocator
import Bond.Lib.TwoPass
import Bond.Lib.Utf16
import Bond.Managed.Types
import Bond.Managed.WriterCalls
import Bond.Cs.CompactBinaryWriter
import Bond.Cs.CompactBinaryCounter
import Bond.Java.BinaryWriters
import Bond.Java.FirstPassCounter
import Bond.Java.StructLengths
import Bond.Java.StreamReader
import Bond.Java.TaggedProtocol
import Bond.Java.Skip
import Bond.Java.BinaryReaders
import Bond.Java.ReaderGrammar
import Bond.Java.SkipExact
import Bond.Java.BondTypes
import Bond.Java.Objects
import Bond.Java.Slicing
import Bond.Cs.BufferReads
import Bond.Cs.SimpleBinary
import Bond.Cs.UntaggedParser
import Bond.Cs.UntaggedSkip
import Bond.Cpp.OutputMemoryStream
import Bond.Cpp.StreamContents
import Bond.Java.FieldIds
import Bond.Cpp.Truncation
import Bond.Cpp.CutPayloads
import Bond.Compiler.RuntimeDefaults
import Bond.Compiler.SameDefaults
import Bond.Java.ElementTypes
import Bond.Cpp.PromotedElements
import Bond.Java.PromotedElements
import Bond.Java.SimpleBinary
import Bond.Java.UntaggedSerialization
import Bond.Java.UntaggedRoundTrip
import Bond.Java.Completeness
import Bond.Cpp.VarintPaths
import Bond.Cpp.MemoryBlob
import Bond.Cpp.InputBufferBounds
import Bond.Cpp.FailedWrites
import Bond.Cpp.UndefinedTypes
import Bond.Java.SimpleJson
import Bond.Java.SimpleJsonWalk
import Bond.Java.SimpleJsonRoundTrip
import Bond.Cpp.Objects
import Bond.Cpp.ObjectValues
import Bond.Cpp.SimpleBinaryRoundTrip
import Bond.Cpp.Serializer
import Bond.Cpp.Transcoding
import Bond.Cpp.TranscodedBytes
import Bond.Cpp.Handed
import Bond.Cpp.HandedOnce
import Bond.Cpp.StaticHanded
import Bond.Cpp.StaticHandedOnce
import Bond.Cpp.Maybe
import Bond.Cpp.Any
import Bond.Cpp.RequiredFields
import Bond.Cpp.ValidateUnfolding
import Bond.Cpp.InitSchemaDef
import Bond.Cpp.NullableReads
import Bond.Cpp.Keys
import Bond.Cpp.MapReads
import Bond.Cpp.RapidJson
import Bond.Cpp.SimpleJsonReader
import Bond.Cpp.JsonGetters
import Bond.Cs.InterruptedSerialization
import Bond.Java.InterruptedSerialization
import Bond.Cs.VarintPaths
import Bond.Cs.OutputBuffer
import Bond.Java.SomethingFields
import Bond.Cs.ContainerDeserialization
import Bond.Cs.ContainerElements
import Bond.Cs.PullParser
import Bond.Cs.SimpleJsonParser
import Bond.Cs.SimpleXmlParser
import Bond.Cs.MissingFields
import Bond.Compiler.Collisions
import Bond.Compiler.EnumValues
import Bond.Compiler.Substitution
import Bond.Compiler.FullyResolved
import Bond.Compiler.SetKeys
import Bond.Java.VarUIntAgreement
import Bond.Java.Counts
import Bond.Java.UntaggedSkip
import Bond.Java.TaggedCounts
import Bond.Java.UntaggedCounts
import Bond.Java.ChunkedStreams
import Bond.Java.ChunkedReaders
import Bond.Lib.Interning
import Bond.Java.BuildSchemaDef
import Bond.Cs.GetStructDef
import Bond.Compiler.UniqueNames
import Bond.Cpp.SimpleArray
import Bond.Compiler.Views
import Bond.Compiler.CustomMapping
import Bond.Compiler.TypeMapping
import Bond.Compiler.Placeholders
import Bond.Java.SimpleJsonCalls
import Bond.Cs.InputStream
import Bond.Cs.SharedBuffers
import Bond.Cs.BinaryWriters
import Bond.Interop.Serialized
import Bond.Cs.BinaryReaders
import Bond.Interop.Readers
