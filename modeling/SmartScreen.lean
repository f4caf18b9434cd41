import SmartScreen.Lib.Loop
import SmartScreen.Lib.Run
import SmartScreen.Lib.Window
import SmartScreen.Lib.Log
import SmartScreen.Lib.SwapBack
import SmartScreen.Lib.Fallible
import SmartScreen.Lib.Monitor
import SmartScreen.Lib.Archive
import SmartScreen.Lib.Rounding
import SmartScreen.Lib.NumberText
import SmartScreen.Lib.FileSystem
import SmartScreen.Lib.Neighbors
import SmartScreen.Lib.Median
import SmartScreen.Lib.Chain
import SmartScreen.Lib.Statistics
import SmartScreen.Lib.OrderedMap
import SmartScreen.Lib.InputStream
import SmartScreen.Lib.Heap
import SmartScreen.Lib.KdTree
import SmartScreen.Lib.Partition
import SmartScreen.Lib.Dft
import SmartScreen.Stream.MetaData
import SmartScreen.Stream.Distributor
import SmartScreen.Stream.Rounds
import SmartScreen.Stream.Reference
import SmartScreen.Stream.DistributorSpec
import SmartScreen.Stream.Refinement
import SmartScreen.Stream.BufferBound
import SmartScreen.Stream.InRange
import SmartScreen.Stream.Exceptions
import SmartScreen.Stream.Growing
import SmartScreen.Queue.AsyncDataQueue
import SmartScreen.Queue.Interleaving
import SmartScreen.Queue.Capacity
import SmartScreen.Queue.EndOfStream
import SmartScreen.Queue.Wakeups
import SmartScreen.Queue.Discard
import SmartScreen.Queue.Roles
import SmartScreen.Detector.DataPoint
import SmartScreen.Stream.TimeStamps
import SmartScreen.Stream.InputSource
import SmartScreen.Stream.FileReading
import SmartScreen.Stream.BluedInputSource
import SmartScreen.Stream.Hdf5Converter
import SmartScreen.Detector.Event
import SmartScreen.Detector.EventDetector
import SmartScreen.Detector.EventSlices
import SmartScreen.Detector.QuietChunks
import SmartScreen.Detector.RmsWindow
import SmartScreen.Detector.WorkLoop
import SmartScreen.Classifier.EventLabelManager
import SmartScreen.Classifier.Labelling
import SmartScreen.Classifier.LabelFile
import SmartScreen.Classifier.LabelSearch
import SmartScreen.Classifier.DataClassifier
import SmartScreen.Classifier.Arithmetic
import SmartScreen.Classifier.FftCalculator
import SmartScreen.Classifier.FeatureExtractor
import SmartScreen.Classifier.RmsFeatures
import SmartScreen.Classifier.Harmonics
import SmartScreen.Classifier.ExtractedFeatures
import SmartScreen.Classifier.PhaseShift
import SmartScreen.Classifier.EventsStored
import SmartScreen.Classifier.Totality
import SmartScreen.Classifier.SearchStructure
import SmartScreen.Classifier.Standardisation
import SmartScreen.Classifier.Rescaling
import SmartScreen.Classifier.IncrementalUpdate
import SmartScreen.Classifier.Stopping
import SmartScreen.Classifier.EventStack
import SmartScreen.Classifier.CrossValidation
import SmartScreen.Classifier.Partitions
import SmartScreen.Classifier.CrossValidationStats
import SmartScreen.Classifier.Serialization
import SmartScreen.Classifier.Vote
import SmartScreen.Classifier.Neighbors
import SmartScreen.Nabo.IndexHeap
import SmartScreen.Nabo.KdTree
import SmartScreen.Nabo.KdTreeBuilt
import SmartScreen.Nabo.KdTreeSearch
import SmartScreen.Classifier.TreeSearch
import SmartScreen.Classifier.KissFft
import SmartScreen.Classifier.KissFftStages
import SmartScreen.Classifier.KissFftDft
import SmartScreen.Classifier.Spectrum
import SmartScreen.App.MainLoop
import SmartScreen.App.MainLoopCalls
import SmartScreen.App.SmartApp
import SmartScreen.App.ProgramConfiguration
import SmartScreen.App.IniFile
import SmartScreen.App.IniMeaning
import SmartScreen.App.IniLine
import SmartScreen.App.IniDocument
import SmartScreen.App.ConfiguredRun
import SmartScreen.App.BufferRange
import SmartScreen.App.IndexRange
import SmartScreen.App.OrderlyLoop
import SmartScreen.App.SmartAppLoop
import SmartScreen.App.BluedApp
import SmartScreen.App.StartOrder
import SmartScreen.App.EventHandlers
import SmartScreen.App.EventIdentity
import SmartScreen.App.EventStorage
import SmartScreen.App.Publishing
import SmartScreen.App.CInterface
import SmartScreen.Server.Commands
import SmartScreen.Server.MessageLoop
import SmartScreen.Server.ModelStorage
import SmartScreen.Server.LabelsStored
import SmartScreen.App.LoopRest
